import FunctionStudy.Proofs.Faults.Calculus
import FunctionStudy.Proofs.SignTable.Partition
import FunctionStudy.Proofs.Solution.Atomicity
import FunctionStudy.Proofs.Agreement

/-! Turning points. Neighbouring intervals of a derivative's sign table have opposite signs, so each
shared bound is an extremum and the sign before it tells which one. -/

namespace FunctionStudy

variable {settings : Settings} {f d : Equation} {layout : Layout}

section Pieces

variable {p : Member} {pieces : List Member} {remaining : ℕ} {is : List Inequality} {i : Inequality}

/-- Every letter that can be the unknown is a letter name. -/
def Member.HasUnknownNames (p : Member) : Prop :=
  ∀ l ∈ p.literals, l.letter.startsWith "y" = false → Literal.isLetterName l.letter.toList = true

theorem Member.HasUnknownNames.oneSided (h : p.HasUnknownNames) : Equation.HasUnknownNames ⟨p, ⟨[]⟩⟩ := by
  intro l hl
  exact h l (by simpa [Equation.literals, Member.literals] using hl)

/-- A piece whose sign changes once, at a finite bound. -/
def IsLinearPiece (settings : Settings) (p : Member) : Prop :=
  ∀ i, pieceInequality settings p = .ok i → ∃ x, i.bounds = [x] ∧ x.isFinite = true

theorem splitPieces_divisor (h : p.HasUnknownNames) {F : Factorization} {s : Split}
    (factored : (factor settings ⟨p, ⟨[]⟩⟩).Yields layout F) (hs : F.split = some s) {m : Member}
    (read : Member.parse s.divisor = .ok m) {found : Option (List Member)}
    (split : (splitPieces settings remaining m).Yields layout found) : found = some [m] ∧ IsLinearPiece settings m := by
  obtain ⟨l, x, isAlpha, -, finite, divisor⟩ := exists_divisor h.oneSided factored hs
  obtain ⟨constant, known, b, q, written, dense, quotient, bound, -⟩ := exists_linear_quotient isAlpha finite
  rw [divisor] at read
  obtain rfl := Except.ok.inj (written.parse.symm.trans read)
  have one : (Powers.linear constant known).degree = 1 := rfl
  have root : (Powers.linear constant known).HasBound q.unsignedZero := ⟨_, b, q, dense, quotient, rfl⟩
  exact ⟨splitPieces_leaf (one.trans_le one_le_two) split, fun i hi =>
    ⟨_, bounds_of_linear root hi, Binary64.isFinite_unsignedZero bound⟩⟩

theorem splitPieces_tail (names : p.HasUnknownNames)
    (h : (splitPieces settings remaining p).Yields layout (some pieces)) :
    ∃ first rest, pieces = first :: rest ∧ ∀ m ∈ rest, IsLinearPiece settings m := by
  -- Along the splits that remain. A split puts its divisor last, so that only the quotient of all of them,
  -- the first piece, need not be linear.
  induction remaining generalizing p pieces with
  | zero =>
    unfold splitPieces at h
    obtain ⟨_, -, h⟩ := h.of_ofExcept_bind
    split_ifs at h
    · obtain rfl := Option.some.inj h.of_pure
      exact ⟨p, [], rfl, List.forall_mem_nil _⟩
    · cases h.of_pure
  | succ remaining ih =>
    unfold splitPieces at h
    obtain ⟨_, -, h⟩ := h.of_ofExcept_bind
    split_ifs at h
    · obtain rfl := Option.some.inj h.of_pure
      exact ⟨p, [], rfl, List.forall_mem_nil _⟩
    · obtain ⟨F, factored, h⟩ := h.of_bind
      cases hs : F.split with
      | none =>
        rw [hs] at h
        cases h.of_pure
      | some s =>
        rw [hs] at h
        obtain ⟨quotient, hq, h⟩ := h.of_ofExcept_bind
        obtain ⟨left, below, h⟩ := h.of_bind
        cases left with
        | none => cases h.of_pure
        | some left =>
          obtain ⟨divisor, hd, h⟩ := h.of_ofExcept_bind
          obtain ⟨right, leaf, h⟩ := h.of_bind
          obtain ⟨rfl, linear⟩ := splitPieces_divisor names factored hs hd leaf
          obtain rfl := Option.some.inj h.of_pure
          obtain ⟨first, rest, rfl, linears⟩ := ih (fun l hl _ => Member.isLetterName_of_parse hq hl) below
          exact ⟨first, rest ++ [divisor], rfl, List.forall_mem_append.mpr ⟨linears, by simpa using linear⟩⟩

theorem pieceInequality_bounds (settings : Settings) (p : Member) :
    Meets (fun _ => True) (fun i => i.bounds.length ≤ 2) (pieceInequality settings p) := by
  unfold pieceInequality
  refine (Meets.any _).bind fun degree _ => (Meets.any _).bind fun coefficients _ => ?_
  split
  · exact Nat.zero_le 2
  · exact (Meets.any _).bind fun root _ => one_le_two
  · refine (Meets.any _).bind fun g _ => (Meets.any _).bind fun solution _ => ?_
    split
    · split_ifs
      · exact le_rfl
      · exact le_rfl
    · exact Nat.zero_le 2
  · trivial

theorem length_bounds_le (h : pieceInequality settings p = .ok i) : i.bounds.length ≤ 2 := by
  have bounds := pieceInequality_bounds settings p
  rwa [h] at bounds

theorem isOneSided_of_piece (h : pieceInequality settings p = .ok i) : i.IsOneSided := by
  have tame : Meets (Error.IsAllowed False) (Inequality.IsTame False) (pieceInequality settings p) :=
    pieceInequality_allowed (r := 67) False.elim False.elim le_rfl False.elim
  rw [h] at tame
  exact tame.1

theorem AreInequalitiesOf.isOneSided (h : AreInequalitiesOf settings pieces is) : ∀ i ∈ is, i.IsOneSided := by
  obtain ⟨pairs, -, rfl, piece⟩ := exists_pairs h
  exact List.forall_mem_map.mpr fun z hz => isOneSided_of_piece (piece z hz)

theorem isFinite_of_mem_drop {first : Member} {rest : List Member}
    (linears : ∀ m ∈ rest, IsLinearPiece settings m) (h : AreInequalitiesOf settings (first :: rest) is) :
    ∀ x ∈ (is.flatMap (·.bounds)).drop 2, x.isFinite = true := by
  cases h with
  | cons own others =>
    intro x hx
    rw [List.flatMap_cons, List.drop_append, List.drop_eq_nil_of_le (length_bounds_le own), List.nil_append] at hx
    obtain ⟨pairs, rfl, rfl, piece⟩ := exists_pairs others
    obtain ⟨_, hi, bound⟩ := List.mem_flatMap.mp (List.mem_of_mem_drop hx)
    obtain ⟨z, hz, rfl⟩ := List.mem_map.mp hi
    obtain ⟨y, bounds, finite⟩ := linears z.1 (List.mem_map_of_mem hz) z.2 (piece z hz)
    rw [bounds, List.mem_singleton] at bound
    exact bound ▸ finite

end Pieces

section Derivatives

variable {p : Member}

theorem Member.simplify_normalize_literals (p : Member) : p.simplify.normalize.literals ⊆ p.literals :=
  List.Subset.trans p.simplify.normalize_literals p.simplify_literals

theorem Member.exists_literal_of_derivative {l : Literal} (hl : l ∈ p.derivative.literals) :
    ∃ m ∈ p.literals, m.letter = l.letter := by
  obtain ⟨u, hu, literal⟩ := Member.mem_literals.mp hl
  obtain ⟨t, ht, derived⟩ := List.mem_filterMap.mp hu
  unfold Term.derivative? at derived
  split at derived
  · cases derived
  · rename_i m own
    dsimp only at derived
    split_ifs at derived <;> obtain rfl := Option.some.inj derived
    · obtain rfl := Option.some.inj literal
      exact ⟨m, Member.mem_literals.mpr ⟨t, ht, own⟩, rfl⟩
    · cases literal

theorem exists_chars_of_isDependentLetter {label : String} (h : isDependentLetter label = true) :
    ∃ rest, label.toList = 'y' :: rest := by
  unfold isDependentLetter at h
  split at h
  · rename_i primes chars
    unfold Literal.dropFinalNewline at chars
    split_ifs at chars
    · obtain ⟨lineBreak, all⟩ := List.dropLast_prefix label.toList
      rw [chars] at all
      exact ⟨primes ++ lineBreak, all.symm⟩
    · exact ⟨primes, chars⟩
  · cases h

theorem startsWith_of_isDependentLetter {label : String} (h : isDependentLetter label = true) (primes : String) :
    (label ++ primes).startsWith "y" = true := by
  obtain ⟨rest, chars⟩ := exists_chars_of_isDependentLetter h
  rw [String.startsWith_string_iff, String.toList_append, chars]
  exact ⟨rest ++ primes.toList, rfl⟩

/-- The unknown of a derivative is one of the function. Its label may have become one of the letters, but starts
with `y`. -/
theorem hasUnknownNames_of_derive (names : f.HasLetterNames) (hd : f.derive 1 = .ok d) (hp : d.polynomial = .ok p) :
    p.HasUnknownNames := by
  unfold Equation.derive at hd
  rw [if_neg (by decide)] at hd
  cases hq : f.polynomial with
  | error e =>
    rw [hq] at hd
    cases hd
  | ok q =>
    rw [hq] at hd
    obtain rfl := Except.ok.inj hd
    intro l hl unknown
    rcases List.mem_append.mp (Equation.polynomial_literals hp hl) with label | own
    · obtain rfl := List.mem_singleton.mp label
      rw [Literal.label, Literal.ofLetter, startsWith_of_isDependentLetter f.isDependentLetter_label] at unknown
      cases unknown
    · obtain ⟨m, hm, same⟩ := Member.exists_literal_of_derivative own
      exact same ▸ names m (Equation.polynomial_literals hq hm)

end Derivatives

section Analysis

variable {t : SignAnalysis}

/-- The bounds of the inequalities can be put in order. -/
def SignAnalysis.CanBeOrdered (layout : Layout) (t : SignAnalysis) : Prop :=
  layout = .insertion ∨ ∀ b ∈ t.breakpoints, b.isNaN = false

/-- What a sign analysis answers: nothing, or intervals that cut the line. -/
theorem positivity_cuts (names : ∀ m, f.polynomial = .ok m → m.HasUnknownNames)
    (h : (positivity settings f).Yields layout t) :
    (t.status ≠ .solved ∧ t.ordered = []) ∨
      t.status = .solved ∧ (∃ bounds, AreCuts (.inf true :: bounds) t.ordered) ∧
        (AreBounded t.ordered → t.CanBeOrdered layout → IsPartition t.ordered) := by
  unfold positivity at h
  obtain ⟨m, hm, h⟩ := h.of_ofExcept_bind
  dsimp only at h
  split_ifs at h
  · rw [h.of_record_bind.of_pure]
    exact .inl ⟨nofun, rfl⟩
  · obtain ⟨found, split, h⟩ := h.of_bind
    cases found with
    | none =>
      rw [h.of_record_bind.of_pure]
      exact .inl ⟨nofun, rfl⟩
    | some pieces =>
      obtain ⟨is, inequalities, table⟩ := h.of_bind
      have known : m.simplify.normalize.HasUnknownNames := fun l hl =>
        names m hm l (m.simplify_normalize_literals hl)
      obtain ⟨first, rest, rfl, linears⟩ := splitPieces_tail known split
      have areOf := pieceInequalities_yields inequalities
      obtain ⟨status, points, ordered⟩ := solveInequalities_ordered areOf.isOneSided table
      have cuts := areCuts_signRuns (fun b => (is.map (Inequality.columnSign b)).prod)
        (prod_columnSign_unit is) (.inf true) (breakpoints layout is)
      rw [← columnsOf, ← ordered] at cuts
      refine .inr ⟨status, ⟨_, cuts⟩, fun bounded sorted => cuts.isPartition bounded ?_⟩
      have order : breakpoints layout is =
          Binary64.sortAscending (Binary64.distinct (is.flatMap (·.bounds))) := by
        rcases sorted with rfl | numbers
        · exact Layout.insertion_ascending
        · exact Layout.ascending_of_numbers fun x hx => numbers x (points ▸ Layout.mem_ascending.mpr hx)
      -- Only the first piece, with two bounds at most, may give a breakpoint that is no number.
      rw [order]
      exact Binary64.pairwise_filter_distinct fun x hx =>
        Binary64.isNaN_of_isFinite (isFinite_of_mem_drop linears areOf x hx)

end Analysis

section Points

variable {e : Bool × Point} {before : SignedInterval} {x y : Binary64} {p : Point}

/-- A point is at its coordinates up to the sign of a zero, also one that was registered before. -/
theorem point_coordinates (h : (Work.point x y).Yields layout p) :
    p.x.unsignedZero = x.unsignedZero ∧ p.y.unsignedZero = y.unsignedZero := by
  obtain ⟨⟨steps, registry⟩, after, run⟩ := h
  cases registry with
  | none =>
    obtain rfl := Except.ok.inj (Prod.mk.inj run).1
    exact ⟨rfl, rfl⟩
  | some r =>
    have added : (r.add x y none none).1 = p := Except.ok.inj (Prod.mk.inj run).1
    rcases r.add_coordinates x y none none with there | ⟨abscissa, ordinate⟩
    · obtain ⟨sameX, sameY⟩ := Point.isAt_iff.mp (added ▸ there)
      exact ⟨(Binary64.same_iff_unsignedZero.mp sameX).2, (Binary64.same_iff_unsignedZero.mp sameY).2⟩
    · rw [← added, abscissa, ordinate]
      exact ⟨Binary64.unsignedZero_unsignedZero x, Binary64.unsignedZero_unsignedZero y⟩

def Equation.HasValueAt (f : Equation) (p : Point) : Prop :=
  ∃ v, f.evaluate (.double p.x) = .ok v ∧ p.y.unsignedZero = v.unsignedZero

theorem Equation.evaluate_congr {v : ℚ} (hx : x.toRat? = some v) (hy : y.toRat? = some v) :
    f.evaluate (.double x) = f.evaluate (.double y) := by
  have same : (Number.double x).toRat = (Number.double y).toRat :=
    (exact_eq_writtenValue hx).trans (exact_eq_writtenValue hy).symm
  unfold evaluate FunctionStudy.evaluate
  rw [same]

theorem extremum_yields (h : (extremum f before).Yields layout e) (finite : before.interval.finish.isFinite = true) :
    e.1 = decide (0 < before.sign) ∧ e.2.x.toRat? = before.interval.finish.toRat? ∧ f.HasValueAt e.2 := by
  unfold extremum at h
  obtain ⟨v, value, h⟩ := h.of_ofExcept_bind
  obtain ⟨p, point, h⟩ := h.of_bind
  obtain rfl := h.of_record_bind.of_pure
  obtain ⟨first, second⟩ := point_coordinates point
  have place : p.x.toRat? = before.interval.finish.toRat? := by
    rw [← Binary64.toRat?_unsignedZero_eq, first, Binary64.toRat?_unsignedZero_eq]
  refine ⟨rfl, place, v, ?_, by rw [second, Binary64.unsignedZero_unsignedZero]⟩
  have number := Binary64.toRat?_of_finite finite
  rw [Equation.evaluate_congr (place.trans number) number, value]

end Points

section Turns

variable {runs : List SignedInterval} {turns : List (Bool × Point)} {r : MonotonicityResult}

theorem exists_next {α : Type} {R : α → α → Prop} {a : α} {xs : List α} (chain : xs.IsChain R)
    (ha : a ∈ xs.dropLast) : ∃ b ∈ xs, R a b := by
  induction xs with
  | nil => cases ha
  | cons x rest ih =>
    cases rest with
    | nil => cases ha
    | cons y rest =>
      obtain ⟨related, chain⟩ := List.isChain_cons_cons.mp chain
      rw [List.dropLast_cons_cons] at ha
      rcases List.mem_cons.mp ha with rfl | later
      · exact ⟨y, by simp, related⟩
      · obtain ⟨b, hb, next⟩ := ih chain later
        exact ⟨b, List.mem_cons_of_mem x hb, next⟩

/-- Each turning point is the end of a run, with the value there, and known by the run's sign. -/
def AreTurns (f : Equation) (runs : List SignedInterval) (turns : List (Bool × Point)) : Prop :=
  List.Forall₂ (fun i t => t.1 = decide (0 < i.sign) ∧ t.2.x.toRat? = i.interval.finish.toRat? ∧
    f.HasValueAt t.2) runs.dropLast turns

theorem AreTurns.alternate (h : AreTurns f runs turns) (partition : IsPartition runs) (bounded : AreBounded runs) :
    (turns.Pairwise fun s t => s.2.x.lt t.2.x = true) ∧ turns.IsChain fun s t => t.1 = !s.1 := by
  obtain ⟨pairs, ends, rfl, related⟩ := exists_pairs h
  have finish : ∀ z ∈ pairs, z.2.2.x.toRat? = z.1.interval.finish.toRat? ∧ z.1 ∈ runs.dropLast :=
    fun z hz => ⟨(related z hz).2.1, ends ▸ List.mem_map_of_mem hz⟩
  have increasing := partition.increasing.sublist (List.dropLast_sublist runs)
  have opposite := partition.opposite.dropLast
  rw [← ends, List.pairwise_map] at increasing
  rw [← ends, List.isChain_map] at opposite
  constructor
  · refine List.pairwise_map.mpr (increasing.imp_of_mem fun {z w} hz hw below => ?_)
    obtain ⟨first, inner⟩ := finish z hz
    obtain ⟨second, inner'⟩ := finish w hw
    have known := Binary64.toRat?_of_finite (bounded _ inner)
    have known' := Binary64.toRat?_of_finite (bounded _ inner')
    exact (Binary64.lt_iff (first.trans known) (second.trans known')).mpr
      ((Binary64.lt_iff known known').mp below)
  · refine (List.isChain_map _).mpr (opposite.imp_of_mem_imp fun z w hz hw other => ?_)
    have unit := partition.unit z.1 (List.mem_of_mem_dropLast (finish z hz).2)
    rw [(related z hz).1, (related w hw).1, other]
    rcases unit with one | one <;> rw [one] <;> rfl

/-- All bounds but infinity on both sides are finite. -/
def MonotonicityResult.HasFiniteBounds (r : MonotonicityResult) : Prop :=
  ∀ i ∈ r.increasing ++ r.decreasing,
    (i.start = .inf true ∨ i.start.isFinite = true) ∧ (i.finish = .inf false ∨ i.finish.isFinite = true)

/-- The intervals cut the line at the extrema, which alternate. A maximum ends an interval of growth and
starts one of decline, a minimum the other way around, each with the value of the function. -/
structure MonotonicityResult.HasTurns (f : Equation) (r : MonotonicityResult) : Prop where
  nodup : (r.increasing ++ r.decreasing).Nodup
  partition : ∀ x : ℝ, (∀ p ∈ r.maxima ++ r.minima, (p.x.toRat : ℝ) ≠ x) →
    ∃! i, i ∈ r.increasing ++ r.decreasing ∧ i.ContainsReal x
  count : r.maxima.length + r.minima.length + 1 = r.increasing.length + r.decreasing.length
  alternate : ∃ turns : List (Bool × Point),
    r.maxima = (turns.filter (·.1)).map (·.2) ∧ r.minima = (turns.filter (!·.1)).map (·.2) ∧
      (turns.Pairwise fun s t => s.2.x.lt t.2.x = true) ∧ turns.IsChain fun s t => t.1 = !s.1
  maximum : ∀ p ∈ r.maxima, (∃ i ∈ r.increasing, i.finish.same p.x = true) ∧
    (∃ j ∈ r.decreasing, p.x.same j.start = true) ∧ f.HasValueAt p
  minimum : ∀ p ∈ r.minima, (∃ i ∈ r.decreasing, i.finish.same p.x = true) ∧
    (∃ j ∈ r.increasing, p.x.same j.start = true) ∧ f.HasValueAt p

variable {t : SignAnalysis}

theorem mem_positive {i : SignedInterval} (hi : i ∈ t.ordered) (sign : 0 < i.sign) : i.interval ∈ t.positive :=
  List.mem_map_of_mem (List.mem_filter.mpr ⟨hi, decide_eq_true sign⟩)

theorem mem_negative {i : SignedInterval} (hi : i ∈ t.ordered) (sign : i.sign < 0) : i.interval ∈ t.negative :=
  List.mem_map_of_mem (List.mem_filter.mpr ⟨hi, decide_eq_true sign⟩)

theorem positive_append_negative (unit : ∀ i ∈ t.ordered, i.sign = 1 ∨ i.sign = -1) :
    (t.positive ++ t.negative).Perm (t.ordered.map fun i => i.interval) := by
  have rest : (t.ordered.filter fun i => i.sign < 0) = t.ordered.filter fun i => !decide (0 < i.sign) := by
    refine List.filter_congr fun i hi => ?_
    rcases unit i hi with one | one <;> rw [one] <;> rfl
  rw [SignAnalysis.positive, SignAnalysis.negative, rest, ← List.map_append]
  exact (List.filter_append_perm _ _).map _

theorem IsPartition.nodup (h : IsPartition runs) : (runs.map fun i => i.interval).Nodup := by
  refine List.pairwise_map.mpr (h.increasing.imp fun {i j} below same => ?_)
  rw [same, Binary64.lt_self] at below
  cases below

theorem areBounded_of_infinite (adjacent : t.ordered.IsChain fun i j => i.interval.finish = j.interval.start)
    (unit : ∀ i ∈ t.ordered, i.sign = 1 ∨ i.sign = -1)
    (sides : ∀ i ∈ t.positive ++ t.negative,
      (i.start = .inf true ∨ i.start.isFinite = true) ∧ (i.finish = .inf false ∨ i.finish.isFinite = true)) :
    AreBounded t.ordered := by
  have own : ∀ i ∈ t.ordered, i.interval ∈ t.positive ++ t.negative := fun i hi =>
    (positive_append_negative unit).mem_iff.mpr (List.mem_map_of_mem hi)
  intro i hi
  obtain ⟨j, hj, met⟩ := exists_next adjacent hi
  rcases (sides _ (own i (List.mem_of_mem_dropLast hi))).2 with above | finite
  · rcases (sides _ (own j hj)).1 with below | finite
    · rw [met, below] at above
      cases above
    · rwa [met]
  · exact finite

theorem AreTurns.exists_runs (h : AreTurns f runs turns) (partition : IsPartition runs) (bounded : AreBounded runs)
    {e : Bool × Point} (he : e ∈ turns) :
    ∃ i ∈ runs, ∃ j ∈ runs, e.1 = decide (0 < i.sign) ∧ j.sign = -i.sign ∧
      i.interval.finish.same e.2.x = true ∧ e.2.x.same j.interval.start = true ∧ f.HasValueAt e.2 := by
  obtain ⟨pairs, ends, rfl, related⟩ := exists_pairs h
  obtain ⟨⟨i, e⟩, hz, rfl⟩ := List.mem_map.mp he
  have inner : i ∈ runs.dropLast := ends ▸ List.mem_map_of_mem hz
  obtain ⟨kind, place, value⟩ := related (i, e) hz
  have neighbours : runs.IsChain fun i j => i.interval.finish = j.interval.start ∧ j.sign = -i.sign :=
    List.isChain_iff_getElem.mpr fun n hn =>
      ⟨List.isChain_iff_getElem.mp partition.adjacent n hn, List.isChain_iff_getElem.mp partition.opposite n hn⟩
  obtain ⟨j, hj, met, opposite⟩ := exists_next neighbours inner
  have known := Binary64.toRat?_of_finite (bounded i inner)
  refine ⟨i, List.mem_of_mem_dropLast inner, j, hj, kind, opposite, ?_, ?_, value⟩
  · exact (Binary64.same_iff known (place.trans known)).mpr rfl
  · exact (Binary64.same_iff (place.trans known) (met ▸ known)).mpr rfl

theorem AreTurns.length_eq (h : AreTurns f runs turns) (partition : IsPartition runs) :
    turns.length + 1 = runs.length := by
  have ends := List.Forall₂.length_eq h
  have nonempty : runs.length ≠ 0 := by
    intro empty
    have first := partition.first
    rw [List.length_eq_zero_iff.mp empty] at first
    cases first
  rw [List.length_dropLast] at ends
  omega

theorem AreTurns.finish_ne (h : AreTurns f runs turns) {x : ℝ} (apart : ∀ e ∈ turns, (e.2.x.toRat : ℝ) ≠ x) :
    ∀ i ∈ runs.dropLast, (i.interval.finish.toRat : ℝ) ≠ x := by
  obtain ⟨pairs, ends, rfl, related⟩ := exists_pairs h
  rw [← ends]
  refine List.forall_mem_map.mpr fun z hz => ?_
  have place : z.2.2.x.toRat = z.1.interval.finish.toRat := congrArg (·.getD 0) (related z hz).2.1
  rw [← place]
  exact apart z.2 (List.mem_map_of_mem hz)

theorem hasTurns_of_partition (partition : IsPartition t.ordered) (bounded : AreBounded t.ordered)
    (h : AreTurns f t.ordered turns) (increasing : r.increasing = t.positive)
    (decreasing : r.decreasing = t.negative)
    (maxima : r.maxima = (turns.filter (·.1)).map (·.2)) (minima : r.minima = (turns.filter (!·.1)).map (·.2)) :
    r.HasTurns f where
  nodup := by
    rw [increasing, decreasing, (positive_append_negative partition.unit).nodup_iff]
    exact partition.nodup
  partition := by
    intro x apart
    have outside := h.finish_ne (x := x) fun e he => apart e.2 (by
      rw [maxima, minima, ← List.map_append]
      exact List.mem_map_of_mem ((List.filter_append_perm _ _).mem_iff.mpr he))
    obtain ⟨k, ⟨hk, inside⟩, unique⟩ := partition.existsUnique bounded outside
    have members : ∀ i, i ∈ r.increasing ++ r.decreasing ↔ ∃ m ∈ t.ordered, m.interval = i := fun i => by
      rw [increasing, decreasing, (positive_append_negative partition.unit).mem_iff, List.mem_map]
    refine ⟨k.interval, ⟨(members _).mpr ⟨k, hk, rfl⟩, inside⟩, fun i hi => ?_⟩
    obtain ⟨m, hm, rfl⟩ := (members i).mp hi.1
    rw [unique m ⟨hm, hi.2⟩]
  count := by
    have intervals := (positive_append_negative partition.unit).length_eq
    have extrema := (List.filter_append_perm (fun e : Bool × Point => e.1) turns).length_eq
    have ends := h.length_eq partition
    rw [List.length_append] at intervals extrema
    rw [List.length_map] at intervals
    rw [maxima, minima, increasing, decreasing, List.length_map, List.length_map]
    omega
  alternate := ⟨turns, maxima, minima, h.alternate partition bounded⟩
  maximum := by
    intro p hp
    rw [maxima] at hp
    obtain ⟨e, he, rfl⟩ := List.mem_map.mp hp
    obtain ⟨he, kind⟩ := List.mem_filter.mp he
    obtain ⟨i, hi, j, hj, sign, opposite, finish, start, value⟩ := h.exists_runs partition bounded he
    have up : 0 < i.sign := of_decide_eq_true (sign.symm.trans kind)
    rw [increasing, decreasing]
    exact ⟨⟨_, mem_positive hi up, finish⟩, ⟨_, mem_negative hj (by omega), start⟩, value⟩
  minimum := by
    intro p hp
    rw [minima] at hp
    obtain ⟨e, he, rfl⟩ := List.mem_map.mp hp
    obtain ⟨he, kind⟩ := List.mem_filter.mp he
    obtain ⟨i, hi, j, hj, sign, opposite, finish, start, value⟩ := h.exists_runs partition bounded he
    have unit := partition.unit i hi
    rw [sign, Bool.not_eq_true', decide_eq_false_iff_not] at kind
    rw [increasing, decreasing]
    exact ⟨⟨_, mem_negative hi (by omega), finish⟩, ⟨_, mem_positive hj (by omega), start⟩, value⟩

end Turns

/-- For every function whose letters are names, and so for every function that is read: an answer that is not
solved has neither intervals nor extrema. A solved one whose shared bounds are finite cuts the line into
intervals of growth and of decline at its extrema, one less than intervals. Maxima and minima alternate from
left to right, a maximum where growth ends and decline starts and a minimum the other way around, each at the
value of the function. In a layout that is not known the breakpoints must be numbers. -/
theorem monotonicity_turns (names : f.HasLetterNames) {r : MonotonicityResult}
    (h : (monotonicity settings f).Yields layout r) :
    (r.status ≠ .solved → r.increasing = [] ∧ r.decreasing = [] ∧ r.maxima = [] ∧ r.minima = []) ∧
      (r.status = .solved → r.HasFiniteBounds →
        (∀ d t, f.derive 1 = .ok d → (positivity settings d).Yields layout t → t.CanBeOrdered layout) →
        r.HasTurns f) := by
  unfold monotonicity at h
  obtain ⟨d, derivative, h⟩ := h.of_ofExcept_bind
  obtain ⟨t, signs, h⟩ := h.of_record_bind.of_bind
  obtain ⟨turns, extrema, h⟩ := h.of_bind
  obtain rfl := h.of_pure
  rcases positivity_cuts (fun p => hasUnknownNames_of_derive names derivative) signs with
    ⟨status, empty⟩ | ⟨status, ⟨bounds, cuts⟩, partitions⟩
  · refine ⟨fun _ => ?_, fun solved => absurd solved status⟩
    have none : turns = [] := by simpa [empty] using extrema.of_mapM
    simp [SignAnalysis.positive, SignAnalysis.negative, empty, none]
  · refine ⟨fun other => absurd status other, fun _ sides sorted => ?_⟩
    have bounded := areBounded_of_infinite cuts.adjacent cuts.unit sides
    have areTurns : AreTurns f t.ordered turns := by
      refine List.forall₂_iff_zip.mpr ⟨extrema.of_mapM.length_eq, fun {i e} pair => ?_⟩
      exact extremum_yields (List.forall₂_zip extrema.of_mapM pair) (bounded i (List.of_mem_zip pair).1)
    exact hasTurns_of_partition (partitions bounded (sorted d t derivative signs)) bounded areTurns rfl rfl rfl rfl

/-- A parabola that opens downward from a point that was registered before. -/
theorem monotonicity_turns_parabola : ∃ f r p, Equation.ofText "y=-x^2" = .ok f ∧
    (monotonicity .defaults f).Yields .insertion r ∧ r.status = .solved ∧ r.HasFiniteBounds ∧
    r.maxima = [p] ∧ p.name = some "A" ∧ r.HasTurns f := by
  let f : Equation := ⟨⟨[⟨.ofInt 1, some (.ofLetter "y")⟩]⟩,
    ⟨[⟨.ofInt (-1), some { letter := "x", exponent := .ofInt 2 }⟩]⟩⟩
  let vertex : Point := ⟨.zero, .zero, some "A", none, none⟩
  let r : MonotonicityResult := {
    derivative := "y'=-2x"
    increasing := [⟨.inf true, .zero⟩]
    decreasing := [⟨.zero, .inf false⟩]
    maxima := [vertex]
    minima := []
    status := .solved }
  have read : Equation.ofText "y=-x^2" = .ok f := by decide +kernel
  have run : ((monotonicity .defaults f).runFrom ⟨[], some ⟨[vertex]⟩⟩).1 = .ok r := by decide +kernel
  have found : (monotonicity .defaults f).Yields .insertion r := ⟨_, _, Prod.ext run rfl⟩
  have bounds : r.HasFiniteBounds := by
    unfold MonotonicityResult.HasFiniteBounds
    decide +kernel
  have turns := monotonicity_turns (Equation.hasLetterNames_ofText read) found
  exact ⟨f, r, vertex, read, found, rfl, bounds, rfl, rfl,
    turns.2 rfl bounds fun _ _ _ _ => .inl rfl⟩

end FunctionStudy
