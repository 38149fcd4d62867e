import FunctionStudy.Proofs.Faults.Solving
import FunctionStudy.Proofs.Positivity
import FunctionStudy.Proofs.SignTable.Exact

/-! Failures of the sign analysis. The pieces of a polynomial are one-sided inequalities, which a
sign table always takes. Where the sizes are ordinary all breakpoints are finite. -/

namespace FunctionStudy

variable {settings : Settings} {r s : ℕ} {ordinary : Prop}

section Degrees

variable {l : Char} {m p : Member} {d : ℤ}

theorem Member.nonneg_of_coefficientsTo {cs : List Binary64} {k : ℤ} (collected : m.coefficientsTo k = .ok cs)
    (degree : m.degree.toInt = .ok d) : 0 ≤ d := by
  have written : m.degree.toInt = .ok (m.writtenDegree : ℤ) :=
    Binary64.toInt_intCast (by
      exact_mod_cast (HasNaturalExponents.of_coefficientsTo collected).toRat?_degree)
  obtain rfl := Except.ok.inj (degree.symm.trans written)
  exact Int.natCast_nonneg _

end Degrees

section Pieces

variable {l : Char} {m piece p : Member}

theorem Member.IsCanonicalIn.writtenDegree_readAgain (h : m.IsCanonicalIn l r) (low : 67 ≤ r) (high : r ≤ 900) :
    m.readAgain.writtenDegree ≤ m.writtenDegree := by
  have exponents := (h.toIsApartIn.reread h.literals (fun t ht => (h.coefficients t ht).isBounded) low high).2
  rw [Member.readAgain]
  split_ifs with none
  · exact (by decide +kernel : Member.writtenDegree ⟨[.constant .zero]⟩ = 0) ▸ Nat.zero_le _
  · refine writtenDegree_le_iff.mpr fun t ht => ?_
    obtain ⟨u, hu, rfl⟩ := List.mem_map.mp ht
    rw [exponents u hu]
    exact natExponent_le_writtenDegree hu

theorem Equation.writtenDegree_polynomial (hl : l ≠ 'y') (h : m.IsIn l)
    (hp : Equation.polynomial ⟨m, ⟨[.constant .zero]⟩⟩ = .ok p) : p.writtenDegree ≤ m.writtenDegree := by
  obtain rfl := Except.ok.inj ((polynomial_eqZero_of_isIn hl h).symm.trans hp)
  rw [Member.writtenDegree_normalize]
  exact (Member.IsIn.writtenDegree_simplify_le h.append_negZero.1).trans Member.writtenDegree_append_negZero

/-- The equation that the text of a quadratic piece writes: ordinary, and of degree 2 at most. -/
theorem Member.IsSettled.exists_parse (h : piece.IsSettled r) (degree : piece.writtenDegree ≤ 2)
    (low : 67 ≤ r) (high : r ≤ 298) : ∃ f, Equation.parse (piece.text ++ "=0") = .ok f ∧
      f.IsOrdinary (r + 2) ∧
      ∀ p, f.polynomial = .ok p → ∃ d, p.simplify.normalize.ClaimsWithin (some (.exact 2)) d := by
  obtain ⟨l, hl, canonical, -⟩ := h
  obtain ⟨written, again⟩ := canonical.readAgain hl.isAlpha low (by omega)
  have ordinary := (again.toIsOrdinaryIn.isOrdinary_eqZero hl).1
  refine ⟨_, written.parse_eqZero, ordinary, fun p hp => ⟨2, claimsWithin_two ?_⟩⟩
  obtain ⟨_, _, moderate⟩ := ordinary p hp
  rw [Member.writtenDegree_normalize]
  calc p.simplify.writtenDegree ≤ p.writtenDegree := moderate.isIn.writtenDegree_simplify_le
    _ ≤ piece.readAgain.writtenDegree := Equation.writtenDegree_polynomial hl.independent again.isIn hp
    _ ≤ piece.writtenDegree := canonical.writtenDegree_readAgain low (by omega)
    _ ≤ 2 := degree

/-- One-sided, and between finite bounds where the numbers are ordinary. -/
def Inequality.IsTame (ordinary : Prop) (i : Inequality) : Prop :=
  i.IsOneSided ∧ (ordinary → ∀ b ∈ i.bounds, b.isFinite = true)

theorem Inequality.isTame_of_no_conditions (mode : Mode) (text : String) : IsTame ordinary ⟨mode, [], text⟩ :=
  ⟨List.forall_mem_nil _, fun _ => List.forall_mem_nil _⟩

theorem Member.IsSettled.isOrdinary_pair {a b : Binary64} (h : piece.IsSettled r)
    (one : (1 : ℤ) = piece.writtenDegree)
    (shape : [a, b] = (List.range (piece.writtenDegree + 1)).reverse.map piece.likeSum) :
    a.IsOrdinary r ∧ b.IsOrdinary r ∧ a.isZero = false := by
  obtain ⟨l, -, canonical, led⟩ := h
  have one : piece.writtenDegree = 1 := by exact_mod_cast one.symm
  rw [one, (by decide : (List.range (1 + 1)).reverse = [1, 0])] at shape
  obtain ⟨rfl, rfl⟩ : a = piece.likeSum 1 ∧ b = piece.likeSum 0 := by simpa using shape
  rw [Member.IsLed, one] at led
  exact ⟨canonical.likeSum_isOrdinary 1, canonical.likeSum_isOrdinary 0, led one_pos⟩

theorem pieceRoots_allowed (modest : ordinary → settings.AreModest)
    (hp : ordinary → piece.IsSettled r ∧ piece.writtenDegree ≤ 2) (low : 67 ≤ r)
    (high : ordinary → r ≤ 298) :
    Meets (Error.IsAllowed ordinary) (fun s => ordinary → s.HasFiniteResults) (do
      let f ← Equation.parse (piece.text ++ "=0")
      (solve settings "y=0" 0 f (some (.exact 2))).answer) := by
  have read : Meets (Error.IsAllowed ordinary) (fun f => ordinary → f.IsOrdinary (r + 2) ∧
      ∀ p, f.polynomial = .ok p → ∃ d, p.simplify.normalize.ClaimsWithin (some (.exact 2)) d)
      (Equation.parse (piece.text ++ "=0")) := by
    refine .allowed (fun known => ?_) (Equation.parse_failsByGrammar _).failsForUser.regular
    obtain ⟨f, parsed, moderate, claims⟩ := (hp known).1.exists_parse (hp known).2 low (high known)
    exact .of_eq_ok parsed ⟨moderate, claims⟩
  refine read.bind fun f moderate => (solve_allowed modest (fun known => (moderate known).1) (by omega)
    (fun known => ?_) fun known => (moderate known).2).answer
  have room := high known
  omega

theorem pieceInequality_allowed (modest : ordinary → settings.AreModest)
    (hp : ordinary → piece.IsSettled r ∧ piece.writtenDegree ≤ 2) (low : 67 ≤ r)
    (high : ordinary → r ≤ 298) :
    Meets (Error.IsAllowed ordinary) (Inequality.IsTame ordinary) (pieceInequality settings piece) := by
  have degree : Meets (Error.IsAllowed ordinary) (fun d => ordinary → d = (piece.writtenDegree : ℤ))
      piece.degree.toInt := by
    refine .allowed (fun known => ?_) (Binary64.toInt_failsRegularly _)
    obtain ⟨l, -, canonical, -⟩ := (hp known).1
    exact .of_eq_ok (Binary64.toInt_intCast (by
      exact_mod_cast canonical.isIn.hasNaturalExponents.toRat?_degree)) rfl
  unfold pieceInequality
  refine degree.eq_ok.bind fun d ⟨whole, written⟩ => ?_
  have dense : Meets (Error.IsAllowed ordinary)
      (fun cs => ordinary → cs = (List.range (piece.writtenDegree + 1)).reverse.map piece.likeSum)
      (piece.coefficientsTo d) := by
    refine .allowed (fun known => ?_) (piece.coefficientsTo_failsRegularly _)
    obtain ⟨l, -, canonical, -⟩ := (hp known).1
    rw [written known]
    exact .of_eq_ok (canonical.isIn.coefficientsTo le_rfl) rfl
  refine dense.eq_ok.bind fun cs ⟨collected, shape⟩ => ?_
  split
  · exact Inequality.isTame_of_no_conditions _ _
  · have linear := fun known => (hp known).1.isOrdinary_pair (written known) (shape known)
    have root := linearRoot_allowed (fun known => (linear known).1) (fun known => (linear known).2.2)
      (fun known => (linear known).2.1) fun known => (high known).trans (by decide)
    refine root.bind fun q finite => ⟨fun c hc => ?_, fun known x hx => ?_⟩
    · rw [List.mem_singleton.mp hc]
      dsimp only
      split_ifs <;> simp
    · obtain rfl := List.mem_singleton.mp hx
      exact Binary64.isFinite_unsignedZero (finite known)
  · rw [← bind_assoc]
    refine (pieceRoots_allowed modest hp low high).bind fun s finite => ?_
    split
    · rename_i x y results
      have bounds : ordinary → ∀ z ∈ [x, y], z.isFinite = true := fun known z hz =>
        finite known z (by rwa [results])
      split_ifs
      · exact ⟨by simp [Inequality.IsOneSided], bounds⟩
      · exact ⟨by simp [Inequality.IsOneSided], bounds⟩
    · exact Inequality.isTame_of_no_conditions _ _
  · have length := Member.length_of_coefficientsTo collected
    have nonneg := Member.nonneg_of_coefficientsTo collected whole
    rw [List.length_nil] at length
    omega

end Pieces

section Runs

variable {is : List Inequality} {runs : List SignedInterval} {layout : Layout}

/-- All runs but the last end in a breakpoint. -/
theorem AreRuns.isFinite_finish (h : AreRuns (columnsOf layout is) runs) (finite : HasFiniteBounds is) :
    ∀ i ∈ runs.dropLast, i.interval.finish.isFinite = true := by
  intro i hi
  have partition := h.isPartition finite
  have some : runs ≠ [] := fun none => by
    rw [none] at hi
    cases hi
  have whole := List.dropLast_append_getLast some
  have last : (runs.getLast some).interval.finish = .inf false := by
    have ends := partition.last
    rwa [List.getLast?_eq_some_getLast some, Option.map_some, Option.some_inj] at ends
  have before : i.interval.finish.lt (.inf false) = true := by
    have increasing := partition.increasing
    rw [← whole] at increasing
    rw [← last]
    exact (List.pairwise_append.mp increasing).2.2 i hi _ (List.mem_singleton_self _)
  rcases (h.ends i (List.mem_of_mem_dropLast hi)).2 with infinite | bound
  · rw [infinite] at before
    exact absurd before (by decide)
  · exact finite _ bound

theorem solveInequalities_finish (letter : String) (sided : ∀ i ∈ is, i.IsOneSided) :
    (solveInequalities is letter).Returns fun s => HasFiniteBounds is →
      ∀ i ∈ s.ordered.dropLast, i.interval.finish.isFinite = true := by
  refine (solveInequalities_returns is letter sided).imp fun s ⟨_, layout, _, ordered⟩ finite => ?_
  have order : (columnsOf layout is).Pairwise fun a b => a.lt b = true :=
    (List.pairwise_append.mp (finite.pairwise_lt layout)).1
  rw [ordered]
  exact (areRuns_signRuns _ (prod_columnSign_unit is) order).isFinite_finish finite

end Runs

section Analysis

variable {p : Member} {f : Equation}

def Member.IsPiece (r : ℕ) (p : Member) : Prop := p.IsSettled r ∧ p.writtenDegree ≤ 2

theorem Member.IsSettled.isPiece (h : p.IsSettled r) (small : p.degree.le (.ofInt 2) = true) :
    p.IsPiece r := by
  refine ⟨h, ?_⟩
  obtain ⟨l, -, canonical, -⟩ := h
  rwa [le_two_eq_decide (by exact_mod_cast canonical.isIn.hasNaturalExponents.toRat?_degree),
    decide_eq_true_iff] at small

theorem IsSettledText.parse_allowed {text : String} (h : ordinary → IsSettledText r text) :
    Meets (Error.IsAllowed ordinary) (fun m => ordinary → m.IsSettled r) (Member.parse text) := by
  refine .allowed (fun known => ?_) (Member.parse_failsRegularly text)
  obtain ⟨m, written, settled⟩ := h known
  exact .of_eq_ok written.parse settled

theorem meets_pure_piece (hp : ordinary → p.IsSettled r) (room : r ≤ s)
    (small : p.degree.le (.ofInt 2) = true) :
    (pure (some [p]) : Work (Option (List Member))).Meets (Error.IsAllowed ordinary) fun pieces =>
      ordinary → ∀ ps ∈ pieces, ∀ q ∈ ps, q.IsPiece s := by
  refine Work.meets_pure fun known ps hps q hq => ?_
  obtain rfl := Option.mem_some.mp hps
  obtain rfl := List.mem_singleton.mp hq
  exact ((hp known).mono room).isPiece small

/-- The recursion, by the number of splits that are left. -/
theorem splitPieces_allowed (modest : ordinary → settings.AreModest) (remaining : ℕ) (low : 67 ≤ r)
    (room : r + 11 * remaining ≤ s) (high : ordinary → s ≤ 800) (hp : ordinary → p.IsSettled r) :
    (splitPieces settings remaining p).Meets (Error.IsAllowed ordinary) fun pieces =>
      ordinary → ∀ ps ∈ pieces, ∀ q ∈ ps, q.IsPiece s := by
  have none : (pure none : Work (Option (List Member))).Meets (Error.IsAllowed ordinary) fun pieces =>
      ordinary → ∀ ps ∈ pieces, ∀ q ∈ ps, q.IsPiece s := Work.meets_pure fun _ => by simp
  induction remaining generalizing p r with
  | zero =>
    unfold splitPieces
    refine Work.meets_ofExcept_bind ((settings.checkDegree_failsForUser _ _).weaken fun _ user =>
      user.isAllowed) fun _ _ => ?_
    split_ifs with small
    · exact meets_pure_piece hp (by omega) small
    · exact none
  | succ remaining ih =>
    have split := Work.Meets.allowed (fun known => factor_meets (f := ⟨p, ⟨[]⟩⟩) (r := r) (by
        obtain ⟨l, hl, canonical, -⟩ := hp known
        exact (canonical.toIsOrdinaryIn.isOrdinary_eqZero hl).2) (modest known).degree low (by
        have := high known
        omega)) (factor_failsRegularly settings ⟨p, ⟨[]⟩⟩)
    unfold splitPieces
    refine Work.meets_ofExcept_bind ((settings.checkDegree_failsForUser _ _).weaken fun _ user =>
      user.isAllowed) fun _ _ => ?_
    split_ifs with small
    · exact meets_pure_piece hp (by omega) small
    · refine split.bind fun F settled => ?_
      split
      · exact none
      rename_i texts chosen
      have member : texts ∈ F.split := chosen ▸ rfl
      refine Work.meets_ofExcept_bind (IsSettledText.parse_allowed fun known =>
        (settled known texts member).1) fun quotient settledQ => ?_
      refine (ih (by omega) (by omega) settledQ).bind fun left pieceL => ?_
      split
      · exact none
      refine Work.meets_ofExcept_bind (IsSettledText.parse_allowed fun known =>
        (settled known texts member).2) fun divisor settledD => ?_
      refine (ih (by omega) (by omega) settledD).bind fun right pieceR => ?_
      split
      · exact none
      refine Work.meets_pure fun known ps hps q hq => ?_
      obtain rfl := Option.mem_some.mp hps
      exact (List.mem_append.mp hq).elim (pieceL known _ rfl q) (pieceR known _ rfl q)

theorem pieceInequalities_allowed {ps : List Member} (modest : ordinary → settings.AreModest)
    (hp : ordinary → ∀ p ∈ ps, p.IsPiece r) (low : 67 ≤ r) (high : ordinary → r ≤ 298) (letter : String) :
    (pieceInequalities settings letter ps).Meets (Error.IsAllowed ordinary) fun is =>
      ∀ i ∈ is, i.IsTame ordinary := by
  have each : ∀ p ∈ ps, (do
      let i ← Work.ofExcept (pieceInequality settings p)
      Work.record (.signPiece i.piece (i.format letter))
      return i).Meets (Error.IsAllowed ordinary) (Inequality.IsTame ordinary) := fun p hpm =>
    Work.meets_ofExcept_bind (pieceInequality_allowed modest (fun known => hp known p hpm) low high)
      fun i tame => Work.meets_record_bind (Work.meets_pure tame)
  exact Work.meets_mapM each

theorem positivity_allowed (modest : ordinary → settings.AreModest) (hf : ordinary → f.IsOrdinary r)
    (low : 67 ≤ r) (high : ordinary → r ≤ 210) :
    (positivity settings f).Meets (Error.IsAllowed ordinary) fun s =>
      ordinary → ∀ i ∈ s.ordered.dropLast, i.interval.finish.isFinite = true := by
  unfold positivity
  refine Work.meets_ofExcept_bind f.polynomial_allowed fun p₀ polynomial => ?_
  have settled : ordinary → p₀.simplify.normalize.IsSettled r := fun known => by
    obtain ⟨l, hl, moderate⟩ := hf known p₀ polynomial
    exact ⟨l, hl, moderate.simplify_normalize⟩
  dsimp only
  split_ifs
  · exact Work.meets_record_bind (Work.meets_pure fun _ => List.forall_mem_nil _)
  · refine (splitPieces_allowed modest (remainingDepth settings 0) low le_rfl
      (fun known => by have := high known; have := (modest known).remainingDepth_le; omega) settled).bind
        fun pieces small => ?_
    split
    · exact Work.meets_record_bind (Work.meets_pure fun _ => List.forall_mem_nil _)
    · rename_i ps
      refine (pieceInequalities_allowed modest (fun known => small known ps rfl) (by omega)
        (fun known => by have := high known; have := (modest known).remainingDepth_le; omega) _).bind fun is tame => ?_
      refine (solveInequalities_finish _ fun i hi => (tame i hi).1).meets.imp fun s finite known => ?_
      refine finite fun b hb => ?_
      obtain ⟨i, hi, bound⟩ := List.mem_flatMap.mp hb
      exact (tame i hi).2 known b bound

end Analysis

end FunctionStudy
