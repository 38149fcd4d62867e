import FunctionStudy.Proofs.Agreement.Pieces
import FunctionStudy.Proofs.Positivity
import FunctionStudy.Proofs.Solution.Reduction

/-! The solver and the sign analysis are two recursions over the same splits. The numbers found by
the solver are those of the pieces, each at least once and no more often than there. -/

namespace FunctionStudy

open Polynomial

variable {l : Char} {settings : Settings} {axis : String} {remaining : ℕ} {layout layout' : Layout}

/-- What a split ends with: a quadratic piece, linear ones behind it, and the numbers computed for
them. The quadratic was read from a text, so that it is read as the same again. -/
structure Pieces (settings : Settings) where
  quadratic : Powers
  linears : List Powers
  roots : Option (List Binary64)
  bounds : List Binary64
  settled : quadratic.reread.dense = quadratic.dense
  hasRoots : quadratic.HasRoots settings roots
  hasBounds : List.Forall₂ Powers.HasBound linears bounds

namespace Pieces

variable (P : Pieces settings)

def members (l : Char) : List Member := (P.quadratic :: P.linears).map (·.member l)

/-- All numbers that are computed. -/
def values : List Binary64 := P.roots.getD [] ++ P.bounds

/-- Those at which a piece changes its sign. -/
def changes : List Binary64 := crossings (P.roots.getD []) ++ P.bounds

theorem changes_subset : P.changes ⊆ P.values :=
  List.append_subset.mpr ⟨fun _ hx => List.mem_append_left _ (crossings_subset _ hx),
    List.subset_append_right _ _⟩

theorem ne_negZero {x : Binary64} (hx : x ∈ P.values) : x ≠ .negZero := by
  have unsigned : ∀ y ∈ P.bounds, y ≠ .negZero := ((List.forall₂_and_left _ _).mp
    (P.hasBounds.flip.imp fun y p hp => ⟨Powers.HasBound.ne_negZero hp, hp⟩)).1
  obtain ⟨a, b, c, -, hr⟩ := P.hasRoots
  rcases List.mem_append.mp hx with hx | hx
  · exact (quadraticRoots_cases hr).1 x hx
  · exact unsigned x hx

variable {d : Powers} {x : Binary64}

/-- The pieces with another linear one. -/
def add (d : Powers) (x : Binary64) (h : d.HasBound x) : Pieces settings :=
  { P with
    linears := P.linears ++ [d]
    bounds := P.bounds ++ [x]
    hasBounds := List.rel_append P.hasBounds (.cons h .nil) }

theorem members_add (h : d.HasBound x) : (P.add d x h).members l = P.members l ++ [d.member l] := by
  simp [members, add]

theorem values_add (h : d.HasBound x) : (P.add d x h).values = P.values ++ [x] := by
  simp [values, add]

/-- Results that are the numbers of the pieces, up to their order and some repeats. -/
structure AreFoundIn (results : List Binary64) : Prop where
  subperm : results.Subperm P.values
  subset : P.values ⊆ results

/-- Dropping repeats loses no number. -/
theorem AreFoundIn.add {results : List Binary64} (h : P.AreFoundIn results) (hx : d.HasBound x)
    (layout : Layout) (name : SetName) :
    (P.add d x hx).AreFoundIn (layout.ascending name (results ++ [x])) := by
  have all : (results ++ [x]).Subperm (P.add d x hx).values := by
    rw [values_add]
    exact (List.subperm_append_right [x]).mpr h.subperm
  refine ⟨?_, fun y hy => ?_⟩
  · refine (Layout.ascending_perm.subperm.trans ?_).trans all
    exact (Binary64.distinct_sublist _).subperm
  · rw [Layout.mem_ascending_of_ne_negZero fun z hz => (P.add d x hx).ne_negZero (all.subset hz)]
    rw [values_add] at hy
    rcases List.mem_append.mp hy with hy | hy
    · exact List.mem_append_left _ (h.subset hy)
    · exact List.mem_append_right _ hy

end Pieces

/-- A solution and the outcome of splitting: neither went all the way, or both came to the same
numbers. -/
def Agree (settings : Settings) (l : Char) (s : EquationSolution) : Option (List Member) → Prop
  | none => s.status = .unfactorable
  | some members => s.status ≠ .unfactorable ∧
      ∃ P : Pieces settings, members = P.members l ∧ P.AreFoundIn s.results

section Splitting

variable {p q d : Powers} {found : Option (List Member)} {F : Factorization} {split : Split}

theorem splitPieces_leaf (degree : p.degree ≤ 2)
    (h : (splitPieces settings remaining (p.member l)).Yields layout found) : found = some [p.member l] := by
  unfold splitPieces at h
  obtain ⟨_, -, h⟩ := h.of_ofExcept_bind
  rw [le_two_eq_decide p.toRat?_degree_member, decide_eq_true degree, if_pos rfl] at h
  exact h.of_pure

theorem splitPieces_zero (degree : 3 ≤ p.degree)
    (h : (splitPieces settings 0 (p.member l)).Yields layout found) : found = none := by
  unfold splitPieces at h
  obtain ⟨_, -, h⟩ := h.of_ofExcept_bind
  rw [le_two_eq_decide p.toRat?_degree_member, decide_eq_false (by omega), if_neg Bool.false_ne_true] at h
  exact h.of_pure

/-- One split, and the quotient split below it; the linear divisor is a piece behind the others. -/
theorem splitPieces_succ (degree : 3 ≤ p.degree)
    (h : (splitPieces settings (remaining + 1) (p.member l)).Yields layout found) :
    ∃ F, (factor settings ⟨p.member l, ⟨[]⟩⟩).Yields layout F ∧ (F.split = none → found = none) ∧
      ∀ split q d, F.split = some split → split.IsReadAs l q d →
        ∃ left, (splitPieces settings remaining (q.reread.member l)).Yields layout left ∧
          found = left.map (· ++ [d.member l]) := by
  unfold splitPieces at h
  obtain ⟨_, -, h⟩ := h.of_ofExcept_bind
  rw [le_two_eq_decide p.toRat?_degree_member, decide_eq_false (by omega), if_neg Bool.false_ne_true] at h
  obtain ⟨F, factored, h⟩ := h.of_bind
  refine ⟨F, factored, fun none => ?_, fun split q d some read => ?_⟩
  · rw [none] at h
    exact h.of_pure
  · rw [some] at h
    dsimp only at h
    obtain ⟨_, hq, h⟩ := h.of_ofExcept_bind
    obtain rfl := Except.ok.inj (read.quotient.parse.symm.trans hq)
    obtain ⟨left, below, h⟩ := h.of_bind
    refine ⟨left, below, ?_⟩
    cases left with
    | none => exact h.of_pure
    | some left =>
      obtain ⟨_, hd, h⟩ := h.of_ofExcept_bind
      obtain rfl := Except.ok.inj (read.divisor.parse.symm.trans hd)
      obtain ⟨right, leaf, h⟩ := h.of_bind
      obtain rfl := splitPieces_leaf (read.linear.trans_le one_le_two) leaf
      exact h.of_pure

end Splitting

section Solving

variable {p : Powers} {f : Equation} {n : ℤ} {s : EquationSolution}

theorem solveHigher_zero (h : (solveHigher settings axis 0 f n).Yields layout s) :
    s.status = .unfactorable := by
  unfold solveHigher at h
  obtain ⟨_, -, h⟩ := h.of_ofExcept_bind
  rw [h.of_record_bind.of_pure]

/-- Both factors of a split are solved, one after the other. -/
theorem exists_solved_factors {higher : HigherSolver} {split : Split} {q d : Powers}
    {found : FactorRoots} (read : split.IsReadAs l q d)
    (h : Work.Yields ([split.quotient, split.divisor].foldlM (fun found text => do
      let g ← Work.ofExcept (Equation.ofText text)
      let s ← solveWith higher settings axis g none
      return found.add text s) ({} : FactorRoots)) layout found) :
    ∃ s t, (solveWith higher settings axis ⟨q.reread.member l, ⟨[.constant .zero]⟩⟩ none).Yields layout s ∧
      (solveWith higher settings axis ⟨d.member l, ⟨[.constant .zero]⟩⟩ none).Yields layout t ∧
      found = joined split.quotient split.divisor s t := by
  simp only [List.foldlM_cons, List.foldlM_nil] at h
  obtain ⟨first, solved, h⟩ := h.of_bind
  obtain ⟨_, hg, solved⟩ := solved.of_ofExcept_bind
  obtain rfl := Except.ok.inj (read.quotient.ofText.symm.trans hg)
  obtain ⟨s, quotient, solved⟩ := solved.of_bind
  obtain rfl := solved.of_pure
  obtain ⟨second, solved, h⟩ := h.of_bind
  obtain ⟨_, hg, solved⟩ := solved.of_ofExcept_bind
  obtain rfl := Except.ok.inj (read.divisor.ofText.symm.trans hg)
  obtain ⟨t, divisor, solved⟩ := solved.of_bind
  obtain rfl := solved.of_pure
  exact ⟨s, t, quotient, divisor, h.of_pure⟩

theorem unfactorable_iff {empty : Prop} [Decidable empty] {status : Status} :
    (if empty ∧ status = .solved then .impossible else status) = .unfactorable ↔
      status = .unfactorable := by
  split_ifs with h
  · simp [h.2]
  · exact Iff.rfl

/-- One split, and the quotient solved below it; the linear divisor gives one more result. -/
theorem solveHigher_succ (hl : l ≠ 'y')
    (h : (solveHigher settings axis (remaining + 1) f n).Yields layout s) :
    ∃ F, (factor settings f).Yields layout F ∧ (F.split = none → s.status = .unfactorable) ∧
      ∀ split q d, F.split = some split → split.IsReadAs l q d → ∃ t x name,
        (solveWith (solveHigher settings axis remaining) settings axis
          ⟨q.reread.member l, ⟨[.constant .zero]⟩⟩ none).Yields layout t ∧ d.HasBound x ∧
        s.results = layout.ascending name (t.results ++ [x]) ∧
        (s.status = .unfactorable ↔ t.status = .unfactorable) := by
  unfold solveHigher at h
  obtain ⟨_, -, h⟩ := h.of_ofExcept_bind
  obtain ⟨F, factored, h⟩ := h.of_bind
  refine ⟨F, factored, fun none => ?_, fun split q d some read => ?_⟩
  · have unsplit : F.isSplit = false := by rw [Factorization.isSplit, none]; rfl
    rw [unsplit, Bool.not_false, if_pos rfl] at h
    rw [h.of_pure]
  · have isSplit : F.isSplit = true := by rw [Factorization.isSplit, some]; rfl
    have factors : F.factors = [split.quotient, split.divisor] := by rw [Factorization.factors, some]
    rw [isSplit, Bool.not_true, if_neg Bool.false_ne_true, factors] at h
    obtain ⟨found, solved, h⟩ := h.of_bind
    obtain ⟨t, u, quotient, divisor, rfl⟩ := exists_solved_factors read solved
    obtain ⟨x, bound, results, status⟩ := exists_bound read.linear (d.setsToZero_eqZero hl) divisor
    have found := status_joined (s := t) split.quotient split.divisor status
    rw [h.of_ascending_bind.of_record_bind.of_pure]
    refine ⟨t, x, .roots remaining, quotient, bound, ?_, unfactorable_iff.trans ?_⟩
    · dsimp only
      rw [results_joined, results]
    · rw [found, productStatus_eq_iff]

end Solving

section Recursion

variable {p : Powers} {f : Equation} {s : EquationSolution} {found : Option (List Member)}

/-- Both recursions look at the same split. -/
theorem factor_oneSided (hl : l ≠ 'y') (hf : f.SetsToZero p l) :
    factor settings f = factor settings ⟨p.member l, ⟨[]⟩⟩ := by
  obtain ⟨m, hm, normal, -⟩ := hf
  exact factor_congr hm (p.polynomial_oneSided hl) (by rw [normal, Powers.normalize_member])

theorem exists_isReadAs_oneSided (isAlpha : l.isAlpha = true) (hl : l ≠ 'y') (degree : 0 < p.degree)
    {F : Factorization} {split : Split} (h : (factor settings ⟨p.member l, ⟨[]⟩⟩).Yields layout F)
    (hs : F.split = some split) : ∃ q d : Powers, q.degree + 1 = p.degree ∧ split.IsReadAs l q d :=
  exists_isReadAs (p := p.collected) isAlpha hl degree (p.polynomial_oneSided hl)
    p.collected.normalize_member h hs

theorem agree_leaf (degree : p.degree = 2) (settled : p.reread.dense = p.dense) (hf : f.SetsToZero p l)
    (hs : (solveWith (solveHigher settings axis remaining) settings axis f none).Yields layout s)
    (hp : (splitPieces settings remaining (p.member l)).Yields layout' found) : Agree settings l s found := by
  obtain ⟨roots, hasRoots, results, status⟩ := exists_roots degree hf claimsDegree_none hs
  obtain rfl := splitPieces_leaf degree.le hp
  have values : roots.getD [] ++ [] = s.results := by rw [results, List.append_nil]
  refine ⟨status, ⟨p, [], roots, [], settled, hasRoots, .nil⟩, rfl, ?_, ?_⟩
  · exact values ▸ List.Subperm.refl _
  · exact values ▸ List.Subset.refl _

theorem Agree.add {d : Powers} {x : Binary64} {t : EquationSolution} {left : Option (List Member)}
    {name : SetName} (h : Agree settings l t left) (hx : d.HasBound x)
    (results : s.results = layout.ascending name (t.results ++ [x]))
    (status : s.status = .unfactorable ↔ t.status = .unfactorable) :
    Agree settings l s (left.map (· ++ [d.member l])) := by
  cases left with
  | none => exact status.mpr h
  | some members =>
    obtain ⟨decided, P, rfl, numbers⟩ := h
    refine ⟨mt status.mp decided, P.add d x hx, P.members_add hx |>.symm, ?_⟩
    rw [results]
    exact numbers.add P hx layout name

/-- The two recursions agree on descending powers, at any depth. -/
theorem agree_of_yields (isAlpha : l.isAlpha = true) (hl : l ≠ 'y') (degree : 2 ≤ p.degree)
    (settled : p.degree = 2 → p.reread.dense = p.dense) (hf : f.SetsToZero p l)
    (hs : (solveWith (solveHigher settings axis remaining) settings axis f none).Yields layout s)
    (hp : (splitPieces settings remaining (p.member l)).Yields layout' found) : Agree settings l s found := by
  induction remaining generalizing p f s found with
  | zero =>
    rcases Nat.eq_or_lt_of_le degree with two | three
    · exact agree_leaf two.symm (settled two.symm) hf hs hp
    · obtain rfl := splitPieces_zero three hp
      exact solveHigher_zero (yields_higher three hf claimsDegree_none hs)
  | succ remaining ih =>
    rcases Nat.eq_or_lt_of_le degree with two | three
    · exact agree_leaf two.symm (settled two.symm) hf hs hp
    · obtain ⟨F, factored, unsolved, solved⟩ :=
        solveHigher_succ hl (yields_higher three hf claimsDegree_none hs)
      obtain ⟨G, split, unsplit, pieces⟩ := splitPieces_succ three hp
      rw [factor_oneSided hl hf] at factored
      obtain rfl := factor_yields_unique factored split
      cases outcome : F.split with
      | none =>
        obtain rfl := unsplit outcome
        exact unsolved outcome
      | some sp =>
        obtain ⟨q, d, below, read⟩ := exists_isReadAs_oneSided isAlpha hl (by omega) split outcome
        obtain ⟨t, x, name, solution, bound, results, status⟩ := solved sp q d outcome read
        obtain ⟨left, found, rfl⟩ := pieces sp q d outcome read
        -- What is read from a text is read as the same again, so that the quotient is settled.
        have quotient := ih (p := q.reread) (by rw [Powers.degree_reread]; omega)
          (fun _ => q.dense_reread_reread) (q.reread.setsToZero_eqZero hl) solution found
        exact quotient.add bound results status

end Recursion

section Breakpoints

variable {is : List Inequality} {t : SignAnalysis} {g : Equation} {m : Member}

/-- Inequalities of the pieces, in order. -/
def AreInequalitiesOf (settings : Settings) (pieces : List Member) (is : List Inequality) : Prop :=
  List.Forall₂ (fun piece i => pieceInequality settings piece = .ok i) pieces is

theorem flatMap_bounds_linears {ps : List Powers} {xs : List Binary64}
    (h : List.Forall₂ Powers.HasBound ps xs)
    (inequalities : AreInequalitiesOf settings (ps.map (·.member l)) is) :
    is.flatMap (·.bounds) = xs := by
  induction h generalizing is with
  | nil =>
    cases inequalities
    rfl
  | cons bound _ ih =>
    rw [List.map_cons] at inequalities
    cases inequalities with
    | cons first rest =>
      rw [List.flatMap_cons, bounds_of_linear bound first, ih rest]
      rfl

theorem Pieces.flatMap_bounds (P : Pieces settings) (isAlpha : l.isAlpha = true) (hl : l ≠ 'y')
    (h : AreInequalitiesOf settings (P.members l) is) : is.flatMap (·.bounds) = P.changes := by
  rw [members, List.map_cons] at h
  cases h with
  | cons first rest =>
    rw [List.flatMap_cons, bounds_of_quadratic isAlpha hl P.settled P.hasRoots first,
      flatMap_bounds_linears P.hasBounds rest, changes]

theorem Pieces.mem_breakpoints (P : Pieces settings) (isAlpha : l.isAlpha = true) (hl : l ≠ 'y')
    (h : AreInequalitiesOf settings (P.members l) is) {x : Binary64} :
    x ∈ breakpoints layout is ↔ x ∈ P.changes := by
  rw [breakpoints, P.flatMap_bounds isAlpha hl h,
    Layout.mem_ascending_of_ne_negZero fun y hy => P.ne_negZero (P.changes_subset hy)]

theorem pieceInequalities_yields {letter : String} {pieces : List Member}
    (h : (pieceInequalities settings letter pieces).Yields layout is) :
    AreInequalitiesOf settings pieces is := by
  unfold pieceInequalities at h
  refine h.of_mapM.imp fun piece i hi => ?_
  obtain ⟨j, hj, hi⟩ := hi.of_ofExcept_bind
  rw [hj, hi.of_record_bind.of_pure]

theorem solveInequalities_yields {letter : String} (h : (solveInequalities is letter).Yields layout t) :
    t.breakpoints = breakpoints layout is ∧ t.status = .solved := by
  unfold solveInequalities at h
  obtain ⟨rows, -, h⟩ := h.of_read_bind.of_ofExcept_bind
  rw [h.of_record_bind.of_pure]
  exact ⟨rfl, rfl⟩

/-- Sign analysis is as good as its splitting. -/
theorem positivity_yields (hm : g.polynomial = .ok m)
    (nonempty : m.simplify.normalize.terms.isEmpty = false)
    (h : (positivity settings g).Yields layout t) :
    ∃ found, (splitPieces settings (remainingDepth settings 0) m.simplify.normalize).Yields layout found ∧
      (found = none → t.status = .unfactorable) ∧
      ∀ pieces, found = some pieces → t.status = .solved ∧
        ∃ is, AreInequalitiesOf settings pieces is ∧ t.breakpoints = breakpoints layout is := by
  unfold positivity at h
  obtain ⟨m', hm', h⟩ := h.of_ofExcept_bind
  obtain rfl := Except.ok.inj (hm.symm.trans hm')
  dsimp only at h
  rw [nonempty, if_neg Bool.false_ne_true] at h
  obtain ⟨found, split, h⟩ := h.of_bind
  refine ⟨found, split, fun none => ?_, fun pieces some => ?_⟩
  · subst none
    rw [h.of_record_bind.of_pure]
  · subst some
    obtain ⟨is, inequalities, h⟩ := h.of_bind
    obtain ⟨table, status⟩ := solveInequalities_yields h
    exact ⟨status, is, pieceInequalities_yields inequalities, table⟩

end Breakpoints

section Polynomials

variable {P : ℤ[X]} {f g : Equation} {s : EquationSolution} {t : SignAnalysis}

/-- An equation whose polynomial is written in the letter, with like terms collected. -/
def Equation.IsSimplifiedOf (P : ℤ[X]) (l : Char) (f : Equation) : Prop :=
  ∃ p, f.polynomial = .ok p ∧ p.IsIntegerIn l ∧ p.simplify = p ∧ p.toPolynomial = P

/-- The canonical member has descending powers and no zeros to drop. -/
theorem exists_powers_canonicalOf (l : Char) (small : HasSmallCoefficients P) (nonzero : P ≠ 0)
    (exponents : P.natDegree ≤ 2 ^ 53) :
    ∃ p : Powers, p.degree = P.natDegree ∧ Member.canonicalOf P l = p.member l ∧
      Member.canonicalOf P l = p.collected.member l := by
  have representable := isRepresentable_of_le small exponents
  obtain ⟨rest, length, shape⟩ : ∃ rest, rest.length = P.natDegree ∧
      dense P = .ofInt P.leadingCoeff :: rest :=
    ⟨(List.range P.natDegree).reverse.map fun k => .ofInt (P.coeff k), by simp, by
      rw [dense, denseTo, List.range_succ, List.reverse_append]
      rfl⟩
  have all : ∀ c ∈ dense P, c.isFinite = true := isFinite_denseTo small P.natDegree
  rw [shape, List.forall_mem_cons] at all
  obtain ⟨p, degree, -, written⟩ := Powers.exists_ofCoefficients all.2
    (leadingCoeff_ne_zero.mpr nonzero) (small _) (length ▸ exponents) l
  rw [← shape] at written
  have same : Member.canonicalOf P l = p.member l := written
  have simplified := Member.simplify_normalize (Member.isIntegerIn_canonicalOf (l := l) representable)
  rw [Member.toPolynomial_canonicalOf representable, same, Powers.simplify_member,
    Powers.normalize_member] at simplified
  exact ⟨p, degree.trans length, same, same.trans simplified.symm⟩

theorem Member.simplify_canonicalOf (small : HasSmallCoefficients P) (nonzero : P ≠ 0)
    (exponents : P.natDegree ≤ 2 ^ 53) : (canonicalOf P l).simplify = canonicalOf P l := by
  obtain ⟨p, -, written, collected⟩ := exists_powers_canonicalOf l small nonzero exponents
  conv_lhs => rw [written]
  rw [p.simplify_member, ← collected]

/-- The root of the one quadratic piece that splitting ends with, if its discriminant counts as
zero. -/
def IsSingleRoot (settings : Settings) (p : Member) (x : Binary64) : Prop :=
  ∃ quadratic linears a b c,
    (splitPieces settings (remainingDepth settings 0) p).Yields .insertion (some (quadratic :: linears)) ∧
    (∀ m ∈ linears, m.degree.toInt = .ok 1) ∧ quadratic.degree.toInt = .ok 2 ∧
    quadratic.coefficientsTo 2 = .ok [a, b, c] ∧ settings.isZero (discriminant a b c) = true ∧
    quadraticRoots settings a b (discriminant a b c) = .ok (some [x])

section Surplus

variable (Q : Pieces settings) {x : Binary64}

theorem Pieces.exists_single (root : x ∈ Q.values) (isolated : x ∉ Q.changes) :
    ∃ a b c, Q.quadratic.dense = [a, b, c] ∧ settings.isZero (discriminant a b c) = true ∧
      quadraticRoots settings a b (discriminant a b c) = .ok (some [x]) := by
  obtain ⟨a, b, c, dense, computed⟩ := Q.hasRoots
  rcases (quadraticRoots_cases computed).2 with both | ⟨y, one, zero⟩
  · rw [changes, both] at isolated
    exact absurd root isolated
  · rw [changes, one] at isolated
    rw [values, one] at root
    rcases List.mem_append.mp root with root | bound
    · obtain rfl := List.mem_singleton.mp root
      exact ⟨a, b, c, dense, zero, one ▸ computed⟩
    · exact absurd (List.mem_append_right _ bound) isolated

theorem splitPieces_yields_insertion {p : Member} {found : Option (List Member)}
    (h : (splitPieces settings remaining p).Yields layout found) :
    (splitPieces settings remaining p).Yields .insertion found :=
  Work.IgnoresLayout.yields (splitPieces_isOf (Work.ignoresLayout_isKind _) settings remaining p) h .insertion

theorem Pieces.isSingleRoot {p : Member}
    (h : (splitPieces settings (remainingDepth settings 0) p).Yields layout (some (Q.members l)))
    (root : x ∈ Q.values) (isolated : x ∉ Q.changes) : IsSingleRoot settings p x := by
  have degree := Q.hasRoots.degree
  have linear : ∀ d ∈ Q.linears, d.degree = 1 := ((List.forall₂_and_left _ _).mp
    (Q.hasBounds.imp fun d y hd => ⟨Powers.HasBound.degree hd, hd⟩)).1
  obtain ⟨a, b, c, dense, single⟩ := Q.exists_single root isolated
  have coefficients := Q.quadratic.coefficientsTo_member (l := l)
  have exponent := toInt_degree_member (p := Q.quadratic) (l := l)
  rw [degree, Nat.cast_ofNat] at coefficients exponent
  rw [dense] at coefficients
  refine ⟨_, _, a, b, c, splitPieces_yields_insertion h, fun m hm => ?_, exponent, coefficients, single⟩
  obtain ⟨d, hd, rfl⟩ := List.mem_map.mp hm
  rw [toInt_degree_member, linear d hd, Nat.cast_one]

theorem Pieces.length_filter_le {xs points : List Binary64} (found : Q.AreFoundIn xs)
    (all : ∀ x, x ∈ points ↔ x ∈ Q.changes) : (xs.filter (· ∉ points)).length ≤ 1 := by
  have dropped : ∀ {ys : List Binary64}, ys ⊆ Q.changes → ys.filter (· ∉ points) = [] := fun sub =>
    List.filter_eq_nil_iff.mpr fun y hy => by simpa using (all y).mpr (sub hy)
  refine (found.subperm.filter (· ∉ points)).length_le.trans ?_
  rw [values, List.filter_append, dropped (List.subset_append_right _ _), List.append_nil]
  obtain ⟨a, b, c, -, computed⟩ := Q.hasRoots
  rcases (quadraticRoots_cases computed).2 with both | ⟨y, one, -⟩
  · rw [← both, dropped (List.subset_append_left _ _)]
    exact Nat.zero_le 1
  · rw [one]
    exact List.length_filter_le _ _

end Surplus

theorem Equation.IsSimplifiedOf.exists_canonical (h : f.IsSimplifiedOf P l) :
    HasSmallCoefficients P ∧ ∃ m, f.polynomial = .ok m ∧ m.normalize = Member.canonicalOf P l ∧
      m.simplify.normalize = Member.canonicalOf P l := by
  obtain ⟨m, hm, integer, simplified, rfl⟩ := h
  have canonical := Member.simplify_normalize integer
  exact ⟨integer.hasSmallCoefficients, m, hm, by rwa [simplified] at canonical, canonical⟩

/-- The solver and the sign analysis agree on a polynomial of degree 3 or more, whenever both come to
an answer: they both end as unfactorable, or every breakpoint is a result and at most one result is no
breakpoint, which is the root of a quadratic piece that does not change its sign there. Exponents are
doubles: above `2^53` two exponents of a quotient may be read as one, as those of `x^(2^53+1)-x^(2^53)`,
but then the list of all coefficients is longer than any memory. -/
theorem solve_agrees_positivity (isAlpha : l.isAlpha = true) (independent : l ≠ 'y')
    (hf : f.IsSimplifiedOf P l) (hg : g.IsSimplifiedOf P l) (degree : 3 ≤ P.natDegree)
    (exponents : P.natDegree ≤ 2 ^ 53) (hs : (solve settings axis 0 f none).Yields layout s)
    (ht : (positivity settings g).Yields layout' t) :
    (s.status = .unfactorable ↔ t.status = .unfactorable) ∧
      (s.status ≠ .unfactorable →
        (∀ b ∈ t.breakpoints, b ∈ s.results) ∧
        (s.results.filter (· ∉ t.breakpoints)).length ≤ 1 ∧
        ∀ x ∈ s.results, x ∉ t.breakpoints →
          IsSingleRoot settings (Member.canonicalOf P l) x) := by
  have nonzero : P ≠ 0 := ne_zero_of_natDegree_gt degree
  obtain ⟨small, m, hm, normal, collected⟩ := hf.exists_canonical
  obtain ⟨-, n, hn, -, split⟩ := hg.exists_canonical
  obtain ⟨p, same, powers, clean⟩ := exists_powers_canonicalOf l small nonzero exponents
  have zero : f.SetsToZero p l := ⟨m, hm, normal.trans clean, collected.trans clean⟩
  have some := isEmpty_terms_canonicalOf (l := l) (isRepresentable_of_le small exponents) nonzero
  rw [← split] at some
  obtain ⟨found, pieces, unsplit, table⟩ := positivity_yields hn some ht
  rw [split, powers] at pieces
  rw [powers]
  have agree := agree_of_yields isAlpha independent (by omega) (by omega) zero hs pieces
  cases found with
  | none => exact ⟨iff_of_true agree (unsplit rfl), fun decided => absurd agree decided⟩
  | some members =>
    obtain ⟨decided, Q, rfl, numbers⟩ := agree
    obtain ⟨solved, is, inequalities, breakpoints⟩ := table _ rfl
    have points : ∀ x, x ∈ t.breakpoints ↔ x ∈ Q.changes := fun x => by
      rw [breakpoints, Q.mem_breakpoints isAlpha independent inequalities]
    refine ⟨iff_of_false decided (by rw [solved]; exact nofun), fun _ => ⟨fun b hb => ?_,
      Q.length_filter_le numbers points, fun x hx isolated => ?_⟩⟩
    · exact numbers.subset (Q.changes_subset ((points b).mp hb))
    · exact Q.isSingleRoot pieces (numbers.subperm.subset hx) (mt (points x).mpr isolated)

section Cube

theorem isSimplifiedOf_cube (hf : f.polynomial = .ok (Member.canonicalOf (X ^ 3) 'x')) :
    f.IsSimplifiedOf (X ^ 3) 'x' :=
  ⟨_, hf, Member.isIntegerIn_canonicalOf isSignable_cube.isRepresentable,
    Member.simplify_canonicalOf isSignable_cube.small isSignable_cube.nonzero isSignable_cube.exponents,
    Member.toPolynomial_canonicalOf isSignable_cube.isRepresentable⟩

theorem exists_solution_cube (layout : Layout) (hf : f.polynomial = .ok (Member.canonicalOf (X ^ 3) 'x')) :
    ∃ s, (solve .defaults "y=0" 0 f none).Yields layout s ∧ s.status ≠ .unfactorable := by
  have degree : (X ^ 3 : ℤ[X]).natDegree = 3 := natDegree_X_pow 3
  have roots : (X ^ 3 : ℤ[X]).roots.card = 3 := by rw [roots_X_pow, Multiset.card_nsmul]; rfl
  have function : f.IsFunctionOf (X ^ 3) 'x' Settings.defaults.maxDegree :=
    isFunctionOf_canonicalOf isSignable_cube.isRepresentable (by rw [degree]; decide) hf
  obtain ⟨s, yields, right⟩ := (solvesUpTo_solveHigher isReadable_x Settings.tellsIntegers_defaults
    axisHeight_zero (by decide) 8 (X ^ 3) f
    ⟨function, monic_X_pow 3, hasSmallDivisors_cube, isSignable_cube.exponents⟩ (by omega)
    (by omega)).exists_yields layout
  refine ⟨s, yields, fun status => ?_⟩
  have few := right.unfactorable_iff.mp status
  rw [roots, degree] at few
  omega

theorem exists_analysis_cube (layout : Layout) (hf : f.polynomial = .ok (Member.canonicalOf (X ^ 3) 'x')) :
    ∃ t, (positivity .defaults f).Yields layout t := by
  have degree : (X ^ 3 : ℤ[X]).natDegree = 3 := natDegree_X_pow 3
  have within : ((X ^ 3 : ℤ[X]).natDegree : ℤ) ≤ Settings.defaults.maxDegree := by
    rw [degree]
    decide
  have canonical := Member.simplify_normalize
    (Member.isIntegerIn_canonicalOf (l := 'x') isSignable_cube.isRepresentable)
  rw [Member.toPolynomial_canonicalOf isSignable_cube.isRepresentable] at canonical
  have returns : (positivity .defaults f).Returns fun _ => True := by
    unfold positivity
    refine Work.Returns.ofExcept_bind hf ?_
    rw [canonical]
    dsimp only
    rw [isEmpty_terms_canonicalOf isSignable_cube.isRepresentable isSignable_cube.nonzero,
      if_neg Bool.false_ne_true]
    refine (isSplitAt_of_degree isReadable_x (by decide) isSignable_cube within
      (by rw [degree]; decide)).bind fun found split => ?_
    obtain ⟨Qs, rfl, pieces⟩ := split
    refine (pieceInequalities_returns isReadable_x Settings.tellsIntegers_defaults pieces within _
      isSignable_cube.nonzero).bind fun is areFor => ?_
    exact (solveInequalities_sound is _ areFor.sided areFor.unsigned).imp fun _ _ => trivial
  obtain ⟨t, yields, -⟩ := returns.exists_yields layout
  exact ⟨t, yields⟩

/-- A cube is analysed because it is solved, and the breakpoints are results. -/
theorem solve_agrees_positivity_cube : ∃ s t,
    (solve .defaults "y=0" 0 ⟨Member.canonicalOf (X ^ 3) 'x', ⟨[.constant .zero]⟩⟩ none).Yields .insertion s ∧
    (positivity .defaults (.explicit "y" (Member.canonicalOf (X ^ 3) 'x'))).Yields .insertion t ∧
    t.status ≠ .unfactorable ∧ ∀ b ∈ t.breakpoints, b ∈ s.results := by
  have degree : (X ^ 3 : ℤ[X]).natDegree = 3 := natDegree_X_pow 3
  have left := Equation.polynomial_eqZero isReadable_x.independent isSignable_cube.isRepresentable
  have right := Equation.polynomial_explicit (Member.canonicalOf (X ^ 3) 'x')
  obtain ⟨s, hs, solved⟩ := exists_solution_cube .insertion left
  obtain ⟨t, ht⟩ := exists_analysis_cube .insertion right
  obtain ⟨status, numbers⟩ := solve_agrees_positivity isReadable_x.isAlpha isReadable_x.independent
    (isSimplifiedOf_cube left) (isSimplifiedOf_cube right) degree.ge isSignable_cube.exponents hs ht
  exact ⟨s, t, hs, ht, mt status.mpr solved, (numbers solved).1⟩

end Cube

end Polynomials

end FunctionStudy
