import FunctionStudy.Proofs.Equation
import FunctionStudy.Proofs.Ruffini.Candidates
import FunctionStudy.Proofs.Ruffini.ZeroTest
import FunctionStudy.Proofs.Work

/-! Factoring integer polynomials. Splitting a linear factor off an integer polynomial succeeds
exactly when there is a rational root, and the table shows an exact division by the first root among
the candidates. -/

namespace FunctionStudy

open Polynomial

/-- A letter that polynomials can be written in and read back. -/
structure IsReadable (l : Char) : Prop where
  isAlpha : l.isAlpha = true
  independent : l ≠ 'y'
  plain : l ∉ numeralLetters

theorem isReadable_x : IsReadable 'x' := ⟨by decide, by decide, by decide⟩

/-- The split of an integer polynomial by an exact division at a root. -/
structure Split.IsDivision (P : ℤ[X]) (l : Char) (root : ℚ) (s : Split) : Prop where
  /-- The exact sums end in 0; the others are the integer coefficients of the quotient. -/
  exact : ∃ products sums,
    syntheticDivision ((dense P).map .double) (.exact root) = .ok ⟨products, sums⟩ ∧
    sums.getLast? = some 0 ∧ AreIntegers sums.dropLast ∧
    (∀ x, aeval x P = (x - root) * denseValue sums.dropLast x) ∧
    s.table = ⟨dense P, .round root, products.map .round, sums.map .round⟩
  quotient : s.quotient = (Member.ofCoefficients s.table.quotient (String.singleton l)).text
  divisor : s.divisor = linearFactor s.table.root (String.singleton l)

variable {P : ℤ[X]} {l : Char}

def IsCandidates (P : ℤ[X]) (cands : List ℚ) : Prop :=
  candidateRoots (.double (.ofInt (P.coeff 0))) (.double (.ofInt P.leadingCoeff)) = .ok cands

/-- A readable letter is no part of a numeral: the text of finite coefficients has their value, so the
first candidate that is a root is found. -/
theorem exists_findRoot (hl : IsReadable l) {cs : List Binary64} (finite : ∀ c ∈ cs, c.isFinite = true)
    (exponents : HasDoubleExponents cs) : ∃ ws, cs.mapM Decimal.exact = .ok ws ∧
      ∀ cands, findRoot (Member.ofCoefficients cs (String.singleton l)).text (String.singleton l) cands =
        .ok (cands.find? fun x => denseValue ws x = 0) := by
  obtain ⟨ts, printed⟩ := Prints.exists_of_finite (l := l) finite exponents
  have apart := areSeparated_of_letter hl.isAlpha hl.plain printed.hasLetter
  obtain ⟨ws, c, exact, -, compiled, value⟩ := printed.compile_text hl.isAlpha apart
  have zero : ∀ x, (c.valueAt x).isZero = decide (denseValue ws x = 0) := fun x => by rw [value]; rfl
  refine ⟨ws, exact, fun cands => ?_⟩
  cases cands with
  | nil => rfl
  | cons r rest =>
    have found : ((r :: rest).find? fun c' => (c.valueAt c').isZero) =
        (r :: rest).find? fun c' => decide (denseValue ws c' = 0) := by simp only [zero]
    rw [findRoot, compiled, ← found]
    rfl

theorem findRoot_dense (hl : IsReadable l) (small : HasSmallCoefficients P)
    (exponents : ∀ k, P.coeff k ≠ 0 → IsDouble k) (cands : List ℚ) :
    findRoot (Member.ofCoefficients (dense P) (String.singleton l)).text (String.singleton l) cands =
      .ok (cands.find? fun c => aeval c P = 0) := by
  obtain ⟨ws, exact, search⟩ := exists_findRoot hl (isFinite_denseTo small P.natDegree)
    (hasDoubleExponents_denseTo small exponents _)
  rw [mapM_exact_denseTo small] at exact
  cases exact
  rw [dense, search]
  simp only [← denseValue_exactDense, exactDense]

/-- Dividing by a root leaves sums and products that are no larger than all coefficients together, so
all of them have doubles. -/
theorem table_divideSynthetically {root first : ℚ} {others : List ℚ}
    (zero : denseValue (first :: others) root = 0) (size : |root| ≤ 2 ^ (1000 : ℕ))
    (total : totalSize (first :: others) ≤ 2 ^ (999 : ℕ)) (cs : List Binary64) :
    (divideSynthetically first others root).table cs root =
      .ok ⟨cs, .round root, ((sumsAfter root first others).dropLast.map (· * root)).map .round,
        (sumsAfter root first others).map .round⟩ := by
  have twice : 2 * totalSize (first :: others) ≤ 2 ^ (1000 : ℕ) := by
    rw [pow_succ']
    gcongr
  have once : totalSize (first :: others) ≤ 2 ^ (1000 : ℕ) :=
    (le_mul_of_one_le_left (totalSize_nonneg _) one_le_two).trans twice
  have sums : ∀ s ∈ sumsAfter root first others, |s| ≤ 2 ^ (1000 : ℕ) :=
    fun s hs => (abs_sumsAfter_le zero s hs).trans once
  have products : ∀ s ∈ (sumsAfter root first others).dropLast.map (· * root), |s| ≤ 2 ^ (1000 : ℕ) := by
    intro s hs
    obtain ⟨u, hu, rfl⟩ := List.mem_map.mp hs
    exact (abs_products_le zero u hu).trans twice
  simp only [Division.table, divideSynthetically, Binary64.ofRatChecked_eq size,
    Binary64.mapM_ofRatChecked products, Binary64.mapM_ofRatChecked sums]
  rfl

theorem exists_table (small : HasSmallCoefficients P) (exponents : ∀ k, P.coeff k ≠ 0 → IsDouble k)
    {root : ℚ} (hr : aeval root P = 0) (size : |root| ≤ 2 ^ 120) :
    ∃ products sums,
      syntheticDivision ((dense P).map .double) (.exact root) = .ok ⟨products, sums⟩ ∧
      sums.getLast? = some 0 ∧ AreIntegers sums.dropLast ∧
      (∀ x, aeval x P = (x - root) * denseValue sums.dropLast x) ∧
      (Division.table ⟨products, sums⟩ (dense P) root) =
        .ok ⟨dense P, .round root, products.map .round, sums.map .round⟩ := by
  obtain ⟨first, others, shape⟩ : ∃ c rest, exactDense P = c :: rest :=
    List.exists_cons_of_length_pos (by simp [exactDense])
  have zero : denseValue (first :: others) root = 0 := by rw [← shape, denseValue_exactDense, hr]
  have integers : AreIntegers (first :: others) := by
    rw [← shape]; exact areIntegers_exactDenseTo P _
  have total : totalSize (first :: others) ≤ 2 ^ 119 := by
    rw [← shape]; exact totalSize_exactDenseTo_le small exponents _
  refine ⟨(sumsAfter root first others).dropLast.map (· * root), sumsAfter root first others,
    syntheticDivision_eq (by rw [dense, mapM_exact_denseTo small]; exact congrArg _ shape) root,
    by rw [getLast?_sumsAfter, zero], ?_, fun x => ?_, ?_⟩
  · intro s hs
    exact areIntegers_sumsAfter integers zero s (List.mem_of_mem_dropLast hs)
  · rw [← denseValue_exactDense, shape, denseValue_eq_mul_quotient root, zero, add_zero]
  · exact table_divideSynthetically zero (size.trans (pow_le_pow_right₀ one_le_two (by decide)))
      (total.trans (pow_le_pow_right₀ one_le_two (by decide))) _

/-- What splitting an integer polynomial off must come to. -/
structure Factorization.IsRight (P : ℤ[X]) (l : Char) (r : Factorization) : Prop where
  isSplit_iff : r.isSplit = true ↔ ∃ x : ℚ, aeval x P = 0
  /-- The root is the first candidate at which the polynomial is zero. -/
  split : ∀ s, r.split = some s → ∃ cands root, IsCandidates P cands ∧
    (cands.find? fun c => aeval c P = 0) = some root ∧ s.IsDivision P l root
  unsplit : r.split = none → r.factors = [] ∧ r.status = .unfactorable

theorem exceeds_eq_decide {x : Binary64} {v : ℚ} (hx : x.toRat? = some v) (limit : ℤ) :
    x.exceeds limit = decide ((limit : ℚ) < v) := by
  have value := Binary64.toRat_eq hx
  cases x with
  | nan => cases hx
  | inf s => cases hx
  | negZero => simp only [Binary64.exceeds, value]
  | finite v hv => simp only [Binary64.exceeds, value]

theorem exceeds_eq_false {x : Binary64} {z limit : ℤ} (hx : x.toRat? = some (z : ℚ))
    (h : z ≤ limit) : x.exceeds limit = false := by
  rw [exceeds_eq_decide hx, decide_eq_false_iff_not, not_lt]
  exact_mod_cast h

theorem checkDegree_eq_ok {settings : Settings} {x : Binary64} {z : ℤ} (hx : x.toRat? = some (z : ℚ))
    (h : z ≤ settings.maxDegree) (text : String) : settings.checkDegree x text = .ok () := by
  rw [Settings.checkDegree, exceeds_eq_false hx h, if_neg Bool.false_ne_true]

theorem outer_dense (degree : 0 < P.natDegree) :
    (dense P).head? = some (.ofInt P.leadingCoeff) ∧
      (dense P).getLast? = some (.ofInt (P.coeff 0)) ∧ ∃ c rest, (dense P).tail = c :: rest := by
  obtain ⟨n, hn⟩ := Nat.exists_eq_succ_of_ne_zero degree.ne'
  refine ⟨?_, ?_, ?_⟩
  · rw [dense, leadingCoeff, hn, denseTo_succ]
    rfl
  · rw [dense, denseTo, List.getLast?_map, List.getLast?_reverse, List.range_succ_eq_map]
    rfl
  · rw [dense, hn, denseTo_succ, List.tail_cons]
    exact List.exists_cons_of_length_pos (by simp)

theorem exists_candidates (small : HasSmallCoefficients P) (degree : 0 < P.natDegree) :
    ∃ cands, IsCandidates P cands ∧ (∀ v ∈ cands, |v| ≤ 2 ^ 120) ∧
      ∀ x : ℚ, aeval x P = 0 → ∃ v ∈ cands, aeval v P = 0 := by
  have leading : |P.leadingCoeff| ≤ 2 ^ 53 := small _
  obtain ⟨cands, candidates, constant, ratios, sizes⟩ :=
    candidateRoots_double (Binary64.toRat?_ofInt (small 0)) (Binary64.toRat?_ofInt leading)
      (leadingCoeff_ne_zero.mpr (ne_zero_of_natDegree_gt degree))
  refine ⟨cands, candidates, fun v hv => ?_, fun x hx =>
    exists_root_mem_candidates hx constant ratios⟩
  have largest : max |(P.coeff 0 : ℚ)| |(P.leadingCoeff : ℚ)| ≤ 2 ^ 53 :=
    max_le (by exact_mod_cast small 0) (by exact_mod_cast leading)
  linarith [sizes v hv]

theorem outer_not_exceeds {limit : ℤ} (small : HasSmallCoefficients P)
    (leading : |P.leadingCoeff| ≤ limit) (constant : |P.coeff 0| ≤ limit) :
    ((Binary64.ofInt P.leadingCoeff).abs.max (Binary64.ofInt (P.coeff 0)).abs).exceeds limit =
      false := by
  have first : |P.leadingCoeff| ≤ 2 ^ 53 := small _
  have larger := Binary64.toRat?_max (Binary64.toRat?_abs (Binary64.toRat?_ofInt first))
    (Binary64.toRat?_abs (Binary64.toRat?_ofInt (small 0)))
  refine exceeds_eq_false (z := max _ _) ?_ (max_le leading constant)
  exact_mod_cast larger

theorem factor_returns {settings : Settings} {f : Equation} {p : Member} (hl : IsReadable l)
    (hp : f.polynomial = .ok p) (h : p.IsIntegerIn l) (degree : 0 < p.toPolynomial.natDegree)
    (limit : (p.writtenDegree : ℤ) ≤ settings.maxDegree)
    (leading : |p.toPolynomial.leadingCoeff| ≤ settings.maxDivisor)
    (constant : |p.toPolynomial.coeff 0| ≤ settings.maxDivisor) :
    (factor settings f).Returns (Factorization.IsRight p.toPolynomial l) := by
  have sorted := h.normalize
  have same : p.normalize.toPolynomial = p.toPolynomial := Member.toPolynomial_normalize h.terms
  have letter : p.normalize.letter = String.singleton l :=
    sorted.letter_eq hl.independent (by rw [same]; exact degree)
  have small := h.hasSmallCoefficients
  have exponents : ∀ k, p.toPolynomial.coeff k ≠ 0 → IsDouble k := fun k hk =>
    Member.isDouble_of_coeff h.terms hk
  have written : p.normalize.degree.toRat? = some (((p.writtenDegree : ℕ) : ℤ) : ℚ) := by
    rw [sorted.toRat?_degree, Member.writtenDegree_normalize, Int.cast_natCast]
  have coefficients : p.normalize.coefficients = .ok (denseTo p.toPolynomial p.writtenDegree) := by
    rw [sorted.coefficients, same, Member.writtenDegree_normalize]
  have dropped : dropLeadingZeros (denseTo p.toPolynomial p.writtenDegree) = dense p.toPolynomial :=
    dropLeadingZeros_denseTo small (Member.natDegree_le_writtenDegree p)
  unfold factor
  refine Work.Returns.ofExcept_bind hp ?_
  refine Work.Returns.ofExcept_bind (checkDegree_eq_ok written limit _) ?_
  refine Work.Returns.ofExcept_bind coefficients ?_
  rw [dropped, letter]
  obtain ⟨head, last, second, rest, tail⟩ := outer_dense degree
  obtain ⟨cands, candidates, sizes, complete⟩ := exists_candidates small degree
  have shown : cands.mapM Binary64.ofRatChecked = .ok (cands.map .round) :=
    Binary64.mapM_ofRatChecked fun v hv => (sizes v hv).trans (pow_le_pow_right₀ one_le_two (by decide))
  dsimp only
  rw [head, last, tail]
  dsimp only
  rw [outer_not_exceeds small leading constant, if_neg Bool.false_ne_true]
  refine Work.Returns.ofExcept_bind candidates (Work.Returns.ofExcept_bind shown ?_)
  refine Work.Returns.record_bind (Work.Returns.ofExcept_bind (findRoot_dense hl small exponents _) ?_)
  cases found : cands.find? fun c => aeval c p.toPolynomial = 0 with
  | none =>
    refine Work.Returns.record_bind (Work.Returns.pure ⟨?_, by simp, fun _ => ⟨rfl, rfl⟩⟩)
    refine ⟨fun split => absurd split Bool.false_ne_true, fun ⟨x, hx⟩ => ?_⟩
    obtain ⟨v, hv, root⟩ := complete x hx
    exact absurd (decide_eq_true root) (List.find?_eq_none.mp found v hv)
  | some root =>
    have zero : aeval root p.toPolynomial = 0 := by simpa using List.find?_some found
    obtain ⟨products, sums, divided, last, integers, factored, table⟩ :=
      exists_table small exponents zero (sizes root (List.mem_of_find?_eq_some found))
    refine Work.Returns.record_bind (Work.Returns.ofExcept_bind divided ?_)
    refine Work.Returns.ofExcept_bind table ?_
    refine Work.Returns.record_bind (Work.Returns.record_bind (Work.Returns.pure ?_))
    refine ⟨⟨fun _ => ⟨root, zero⟩, fun _ => rfl⟩, fun s hs => ?_, by simp⟩
    obtain rfl := Option.some.inj hs
    exact ⟨cands, root, candidates, found,
      ⟨products, sums, divided, last, integers, factored, rfl⟩, rfl, rfl⟩

/-- Factoring succeeds exactly when there is a rational root. It then divides exactly by the first
candidate that is one, with integers for the quotient, and shows the division in doubles. -/
theorem factor_sound_complete {settings : Settings} {f : Equation} {p : Member} (hl : IsReadable l)
    (hp : f.polynomial = .ok p) (h : p.IsIntegerIn l) (degree : 0 < p.toPolynomial.natDegree)
    (limit : (p.writtenDegree : ℤ) ≤ settings.maxDegree)
    (leading : |p.toPolynomial.leadingCoeff| ≤ settings.maxDivisor)
    (constant : |p.toPolynomial.coeff 0| ≤ settings.maxDivisor) (start : Notebook) (layout : Layout) :
    ∃ F after, (factor settings f).runFrom start layout = (.ok F, after) ∧
      (F.isSplit = true ↔ ∃ x : ℚ, aeval x p.toPolynomial = 0) ∧
      (∀ s, F.split = some s → ∃ cands root products sums,
        candidateRoots (.double (.ofInt (p.toPolynomial.coeff 0)))
          (.double (.ofInt p.toPolynomial.leadingCoeff)) = .ok cands ∧
        (cands.find? fun c => aeval c p.toPolynomial = 0) = some root ∧
        syntheticDivision ((dense p.toPolynomial).map .double) (.exact root) =
          .ok ⟨products, sums⟩ ∧
        sums.getLast? = some 0 ∧ AreIntegers sums.dropLast ∧
        (∀ x, aeval x p.toPolynomial = (x - root) * denseValue sums.dropLast x) ∧
        s.table = ⟨dense p.toPolynomial, .round root, products.map .round, sums.map .round⟩) ∧
      (F.isSplit = false → F.factors = [] ∧ F.status = .unfactorable) := by
  obtain ⟨F, after, run, right⟩ := factor_returns hl hp h degree limit leading constant start layout
  refine ⟨F, after, run, right.isSplit_iff, fun s hs => ?_, fun unsplit => ?_⟩
  · obtain ⟨cands, root, candidates, found, division⟩ := right.split s hs
    obtain ⟨products, sums, exact⟩ := division.exact
    exact ⟨cands, root, products, sums, candidates, found, exact⟩
  · refine right.unsplit (Option.not_isSome_iff_eq_none.mp ?_)
    rw [← Factorization.isSplit, unsplit]
    decide

theorem isRepresentable_difference : IsRepresentable (X ^ 2 - C 4) := by
  refine ⟨fun k => ?_, fun k hk => isDouble_of_le ?_⟩
  · rw [coeff_sub, coeff_X_pow, coeff_C]
    split_ifs <;> norm_num
  · have least := le_natDegree_of_ne_zero hk
    rw [natDegree_X_pow_sub_C] at least
    omega

theorem factor_difference :
    ∃ F after, (factor .defaults (.explicit "y" (Member.canonicalOf (X ^ 2 - C 4) 'x'))).runFrom
      .empty = (.ok F, after) ∧ F.isSplit = true := by
  have same := Member.toPolynomial_canonicalOf (l := 'x') isRepresentable_difference
  have degree : (X ^ 2 - C 4 : ℤ[X]).natDegree = 2 := natDegree_X_pow_sub_C
  have written := Member.writtenDegree_canonicalOf (l := 'x') isRepresentable_difference
  have leading : (X ^ 2 - C 4 : ℤ[X]).leadingCoeff = 1 := leadingCoeff_X_pow_sub_C two_pos
  have constant : (X ^ 2 - C 4 : ℤ[X]).coeff 0 = -4 := by
    rw [coeff_sub, coeff_X_pow, coeff_C_zero]
    norm_num
  have limit : ((Member.canonicalOf (X ^ 2 - C 4) 'x').writtenDegree : ℤ) ≤
      Settings.defaults.maxDegree := by
    rw [written, degree]
    decide
  obtain ⟨F, after, run, split, -⟩ := factor_sound_complete isReadable_x
    (Equation.polynomial_explicit _) (Member.isIntegerIn_canonicalOf isRepresentable_difference)
    (by rw [same, degree]; decide) limit
    (by rw [same, leading]; decide) (by rw [same, constant]; decide) .empty .insertion
  refine ⟨F, after, run, split.mpr ⟨2, ?_⟩⟩
  rw [same, map_sub, map_pow, aeval_X, aeval_C]
  norm_num

end FunctionStudy
