import Mathlib.Algebra.QuadraticDiscriminant
import Mathlib.Analysis.Real.Sqrt
import FunctionStudy.Proofs.Solution.Direct
import FunctionStudy.Inequality
import FunctionStudy.Proofs.SignTable

/-! Pieces of degree up to 2. A piece whose real roots are all integers is compared with exactly
these roots, and its inequality holds where the piece is positive. -/

namespace FunctionStudy

open Polynomial
open Binary64 (ofInt toRat?_ofInt)

/-- All real roots are integers. -/
def HasIntegerRealRoots (P : ℤ[X]) : Prop := ∀ x : ℝ, aeval x P = 0 → ∃ r : ℤ, x = r

/-- An inequality for the places where a polynomial is positive. -/
structure Inequality.IsFor (Q : ℤ[X]) (i : Inequality) : Prop where
  sided : i.IsOneSided
  bounds : ∀ b ∈ i.bounds, ∃ r, Q.IsRoot r ∧ |r| ≤ 2 ^ 53 ∧ b = ofInt r
  decides : ∀ x : ℚ, aeval x Q ≠ 0 → Decides x i (aeval x Q)

variable {Q L : ℤ[X]} {a r s : ℤ} {l : Char} {settings : Settings} {text : String}

section Roots

theorem HasIntegerRealRoots.of_dvd (h : HasIntegerRealRoots Q) (divides : L ∣ Q) :
    HasIntegerRealRoots L := by
  intro x root
  obtain ⟨D, rfl⟩ := divides
  exact h x (by rw [map_mul, root, zero_mul])

theorem HasIntegerRealRoots.rational (h : HasIntegerRealRoots Q) : HasIntegerRoots Q := by
  intro x root
  have real : aeval (x : ℝ) Q = 0 := by
    have value := aeval_algebraMap_apply ℝ x Q
    rw [root, map_zero] at value
    exact value
  obtain ⟨r, hr⟩ := h x real
  exact ⟨r, by exact_mod_cast hr⟩

theorem aeval_intCast_real : aeval (r : ℝ) Q = 0 ↔ Q.IsRoot r := by
  have value : aeval (r : ℝ) Q = ((Q.eval r : ℤ) : ℝ) := aeval_algebraMap_apply_eq_algebraMap_eval r Q
  rw [value, Int.cast_eq_zero, IsRoot.def]

theorem HasIntegerRealRoots.exists_isRoot (h : HasIntegerRealRoots Q) {x : ℝ} (root : aeval x Q = 0) :
    ∃ r, Q.IsRoot r := by
  obtain ⟨r, rfl⟩ := h x root
  exact ⟨r, aeval_intCast_real.mp root⟩

theorem aeval_eq_quadratic {A : Type} [CommRing A] (x : A) (degree : Q.natDegree ≤ 2) :
    aeval x Q = Q.coeff 2 * (x * x) + Q.coeff 1 * x + Q.coeff 0 := by
  rw [aeval_eq_sum_range' (n := 3) (by omega), Finset.sum_range_succ, Finset.sum_range_succ,
    Finset.sum_range_one]
  simp only [zsmul_eq_mul]
  ring

theorem exists_linear (h : HasIntegerRealRoots Q) (degree : Q.natDegree = 1) :
    ∃ a r, a ≠ 0 ∧ Q = (X - C r) * C a := by
  have leading : Q.coeff 1 ≠ 0 := by
    rw [← degree]
    exact leadingCoeff_ne_zero.mpr (ne_zero_of_natDegree_gt (n := 0) (by omega))
  have real : (Q.coeff 1 : ℝ) ≠ 0 := Int.cast_ne_zero.mpr leading
  have root : aeval (-(Q.coeff 0 : ℝ) / Q.coeff 1) Q = 0 := by
    rw [aeval_eq_quadratic _ (by omega), coeff_eq_zero_of_natDegree_lt (n := 2) (by omega)]
    field_simp
    simp
  obtain ⟨r, isRoot⟩ := h.exists_isRoot root
  obtain ⟨L, rfl⟩ := dvd_iff_isRoot.mpr isRoot
  have nonzero : L ≠ 0 := by
    rintro rfl
    simp at degree
  rw [natDegree_linear_mul nonzero] at degree
  obtain ⟨a, rfl⟩ := natDegree_eq_zero.mp (Nat.succ.inj degree)
  exact ⟨a, r, by simpa using nonzero, rfl⟩

theorem exists_quadratic (h : HasIntegerRealRoots Q) (degree : Q.natDegree = 2)
    (root : ∃ r, Q.IsRoot r) :
    ∃ a r s, a ≠ 0 ∧ r ≤ s ∧ Q = (X - C r) * ((X - C s) * C a) := by
  obtain ⟨r, isRoot⟩ := root
  obtain ⟨L, rfl⟩ := dvd_iff_isRoot.mpr isRoot
  have nonzero : L ≠ 0 := by
    rintro rfl
    simp at degree
  rw [natDegree_linear_mul nonzero] at degree
  obtain ⟨a, s, ha, rfl⟩ := exists_linear (h.of_dvd (dvd_mul_left L (X - C r))) (Nat.succ.inj degree)
  rcases le_total r s with le | le
  · exact ⟨a, r, s, ha, le, rfl⟩
  · exact ⟨a, s, r, ha, le, by ring⟩

theorem discriminant_neg (h : HasIntegerRealRoots Q) (degree : Q.natDegree = 2)
    (noRoot : ¬ ∃ r, Q.IsRoot r) : Q.coeff 1 * Q.coeff 1 - 4 * Q.coeff 2 * Q.coeff 0 < 0 := by
  by_contra nonneg
  have leading : (Q.coeff 2 : ℝ) ≠ 0 := by
    rw [Int.cast_ne_zero, ← degree]
    exact leadingCoeff_ne_zero.mpr (ne_zero_of_natDegree_gt (n := 0) (by omega))
  have real : 0 ≤ discrim (Q.coeff 2 : ℝ) (Q.coeff 1) (Q.coeff 0) := by
    rw [discrim, sq]
    exact_mod_cast not_lt.mp nonneg
  obtain ⟨x, hx⟩ := exists_quadratic_eq_zero leading ⟨_, (Real.mul_self_sqrt real).symm⟩
  exact noRoot (h.exists_isRoot (x := x) (by rw [aeval_eq_quadratic _ degree.le, hx]))

end Roots

section Pieces

variable {text : String} {x : ℚ}

theorem isFor_constant {positive : Bool}
    (sign : ∀ x : ℚ, aeval x Q ≠ 0 → (positive = true ↔ 0 < aeval x Q)) :
    Inequality.IsFor Q ⟨if positive then .always else .never, [], text⟩ where
  sided := by simp [Inequality.IsOneSided]
  bounds := by simp [Inequality.bounds]
  decides x nonzero := by
    refine ⟨nonzero, ?_⟩
    rw [← sign x nonzero]
    cases positive <;> simp [Inequality.Holds]

theorem aeval_linear_mul : aeval x ((X - C r) * Q) = (x - r) * aeval x Q := by
  rw [map_mul, map_sub, aeval_X, aeval_C]
  rfl

theorem isPositive_ofInt {z : ℤ} (small : |z| ≤ 2 ^ 53) : (ofInt z).isPositive = decide (0 < z) := by
  rw [Bool.eq_iff_iff, Binary64.isPositive_iff (toRat?_ofInt small), decide_eq_true_iff, Int.cast_pos]

theorem toRat_ofInt {z : ℤ} (small : |z| ≤ 2 ^ 53) : (ofInt z).toRat = z :=
  Binary64.toRat_eq (toRat?_ofInt small)

theorem isFor_linear (ha : a ≠ 0) (hr : |r| ≤ 2 ^ 53) :
    Inequality.IsFor ((X - C r) * C a)
      ⟨.all, [⟨if 0 < a then .above else .below, ofInt r⟩], text⟩ where
  sided c hc := by
    rw [List.mem_singleton.mp hc]
    split_ifs <;> simp
  bounds b hb := by
    obtain rfl : b = ofInt r := by simpa [Inequality.bounds] using hb
    exact ⟨r, isRoot_linear_mul.mpr (.inl rfl), hr, rfl⟩
  decides x nonzero := by
    refine ⟨nonzero, ?_⟩
    have value : aeval x ((X - C r) * C a) = (x - r) * a := by
      rw [aeval_linear_mul, aeval_C]
      rfl
    rw [value]
    rcases ha.lt_or_gt with negative | positive
    · have sign : (a : ℚ) < 0 := Int.cast_lt_zero.mpr negative
      simp [Inequality.Holds, Condition.Holds, negative.not_gt, toRat_ofInt hr, mul_pos_iff, sign,
        sign.not_gt]
    · have sign : (0 : ℚ) < a := Int.cast_pos.mpr positive
      simp [Inequality.Holds, Condition.Holds, positive, toRat_ofInt hr, sign]

theorem isFor_quadratic (ha : a ≠ 0) (lt : r < s) (hr : |r| ≤ 2 ^ 53) (hs : |s| ≤ 2 ^ 53) :
    Inequality.IsFor ((X - C r) * ((X - C s) * C a))
      (if 0 < a then ⟨.any, [⟨.below, ofInt r⟩, ⟨.above, ofInt s⟩], text⟩
        else ⟨.all, [⟨.above, ofInt r⟩, ⟨.below, ofInt s⟩], text⟩) where
  sided c hc := by
    split_ifs at hc <;> rcases List.mem_pair.mp hc with rfl | rfl <;> simp
  bounds b hb := by
    have either : b = ofInt r ∨ b = ofInt s := by
      split_ifs at hb <;> simpa [Inequality.bounds] using hb
    rcases either with rfl | rfl
    · exact ⟨r, isRoot_linear_mul.mpr (.inl rfl), hr, rfl⟩
    · exact ⟨s, isRoot_linear_mul.mpr (.inr (isRoot_linear_mul.mpr (.inl rfl))), hs, rfl⟩
  decides x nonzero := by
    refine ⟨nonzero, ?_⟩
    have value : aeval x ((X - C r) * ((X - C s) * C a)) = (x - r) * ((x - s) * a) := by
      rw [aeval_linear_mul, aeval_linear_mul, aeval_C]
      rfl
    have order : (r : ℚ) < s := Int.cast_lt.mpr lt
    rw [value]
    rcases ha.lt_or_gt with negative | positive
    · have sign : (a : ℚ) < 0 := Int.cast_lt_zero.mpr negative
      have between : 0 < (x - r) * ((x - s) * a) ↔ (r : ℚ) < x ∧ x < s := by
        simp only [mul_pos_iff, mul_neg_iff, sign, sign.not_gt, and_true, and_false, false_or, or_false,
          sub_pos, sub_neg]
        exact ⟨fun h => h.resolve_right fun h => by linarith, .inl⟩
      rw [between, if_neg negative.not_gt]
      simp [Inequality.Holds, Condition.Holds, toRat_ofInt hr, toRat_ofInt hs]
    · have sign : (0 : ℚ) < a := Int.cast_pos.mpr positive
      have outside : 0 < (x - r) * ((x - s) * a) ↔ x < r ∨ (s : ℚ) < x := by
        simp only [mul_pos_iff, mul_neg_iff, sign, sign.not_gt, and_true, and_false, false_or, or_false,
          sub_pos, sub_neg]
        constructor
        · exact fun h => h.symm.imp And.left And.right
        · rintro (below | above)
          · exact .inr ⟨below, below.trans order⟩
          · exact .inl ⟨order.trans above, above⟩
      rw [outside, if_pos positive]
      simp [Inequality.Holds, Condition.Holds, toRat_ofInt hr, toRat_ofInt hs]

end Pieces

section Solving

theorem toInt_degree_canonicalOf (h : IsRepresentable Q) :
    (Member.canonicalOf Q l).degree.toInt = .ok (Q.natDegree : ℤ) :=
  Binary64.toInt_intCast (toRat?_degree_canonicalOf h)

theorem pieceInequality_constant (h : IsRepresentable Q) (degree : Q.natDegree = 0) :
    pieceInequality settings (Member.canonicalOf Q l) =
      .ok ⟨if (ofInt (Q.coeff 0)).isPositive then .always else .never, [], Member.textOf Q l⟩ := by
  have whole := toInt_degree_canonicalOf (l := l) h
  have dense := coefficientsTo_canonicalOf (l := l) h
  have shape : denseTo Q 0 = [ofInt (Q.coeff 0)] := rfl
  rw [degree, Nat.cast_zero] at whole dense
  rw [shape] at dense
  simp only [pieceInequality, whole, dense, bind, Except.bind, pure, Except.pure]
  rfl

section Computed

variable {piece : Member} {f : Equation} {x y z q : Binary64} {solution : EquationSolution}

theorem pieceInequality_of_linear (whole : piece.degree.toInt = .ok 1)
    (dense : piece.coefficientsTo 1 = .ok [x, y]) (hq : y.neg.div x = .ok q) :
    pieceInequality settings piece =
      .ok ⟨.all, [⟨if x.isPositive then .above else .below, q.unsignedZero⟩], piece.text⟩ := by
  simp only [pieceInequality, whole, dense, bind, Except.bind, pure, Except.pure, hq]

/-- The inequality of a quadratic piece, by its computed roots. -/
def quadraticInequality (positive : Bool) (text : String) : List Binary64 → Inequality
  | [low, high] =>
    if positive then ⟨.any, [⟨.below, low⟩, ⟨.above, high⟩], text⟩
    else ⟨.all, [⟨.above, low⟩, ⟨.below, high⟩], text⟩
  | _ => ⟨if positive then .always else .never, [], text⟩

theorem pieceInequality_of_quadratic (whole : piece.degree.toInt = .ok 2)
    (dense : piece.coefficientsTo 2 = .ok [x, y, z])
    (parsed : Equation.parse (piece.text ++ "=0") = .ok f)
    (solved : (solve settings "y=0" 0 f (some (.exact 2))).answer = .ok solution) :
    pieceInequality settings piece =
      .ok (quadraticInequality x.isPositive piece.text solution.results) := by
  simp only [pieceInequality, whole, dense, bind, Except.bind, pure, Except.pure, parsed, solved]
  rcases solution.results with _ | ⟨low, _ | ⟨high, _ | ⟨third, rest⟩⟩⟩
  · rfl
  · rfl
  · cases x.isPositive <;> rfl
  · rfl

end Computed

theorem pieceInequality_linear (h : IsRepresentable Q) (degree : Q.natDegree = 1) {q : Binary64}
    (hq : (ofInt (Q.coeff 0)).neg.div (ofInt (Q.coeff 1)) = .ok q) :
    pieceInequality settings (Member.canonicalOf Q l) =
      .ok ⟨.all, [⟨if (ofInt (Q.coeff 1)).isPositive then .above else .below, q.unsignedZero⟩],
        Member.textOf Q l⟩ := by
  have whole := toInt_degree_canonicalOf (l := l) h
  have dense := coefficientsTo_canonicalOf (l := l) h
  have shape : denseTo Q 1 = [ofInt (Q.coeff 1), ofInt (Q.coeff 0)] := rfl
  rw [degree, Nat.cast_one] at whole dense
  rw [shape] at dense
  exact pieceInequality_of_linear whole dense hq

theorem pieceInequality_quadratic (hl : IsReadable l) (tells : settings.TellsIntegers)
    (small : HasSmallCoefficients Q) (degree : Q.natDegree = 2)
    (within : (Q.natDegree : ℤ) ≤ settings.maxDegree) {roots : Option (List Binary64)}
    (hr : quadraticRoots settings (ofInt (Q.coeff 2)) (ofInt (Q.coeff 1))
      (discriminant (ofInt (Q.coeff 2)) (ofInt (Q.coeff 1)) (ofInt (Q.coeff 0))) = .ok roots) :
    pieceInequality settings (Member.canonicalOf Q l) =
      .ok (quadraticInequality (ofInt (Q.coeff 2)).isPositive (Member.textOf Q l)
        (roots.getD [])) := by
  have nonzero : Q ≠ 0 := ne_zero_of_natDegree_gt (n := 0) (by omega)
  have leading : Q.coeff 2 ≠ 0 := by rw [← degree]; exact leadingCoeff_ne_zero.mpr nonzero
  have representable := isRepresentable_of_le small (by omega)
  have whole := toInt_degree_canonicalOf (l := l) representable
  have dense := coefficientsTo_canonicalOf (l := l) representable
  have shape : denseTo Q 2 = [ofInt (Q.coeff 2), ofInt (Q.coeff 1), ofInt (Q.coeff 0)] := rfl
  have parsed : Equation.parse ((Member.canonicalOf Q l).text ++ "=0") =
      .ok ⟨Member.canonicalOf Q l, ⟨[.constant .zero]⟩⟩ :=
    Equation.parse_textOf hl.isAlpha nonzero small (by omega)
  have function := isFunctionOf_canonicalOf representable within
    (Equation.polynomial_eqZero hl.independent representable)
  have claimed : solvingDegree settings (Member.canonicalOf Q l) (some (.exact 2)) =
      .ok Q.natDegree := by
    rw [solvingDegree_two (by omega), degree]
  have solving : (solve settings "y=0" 0 ⟨Member.canonicalOf Q l, ⟨[.constant .zero]⟩⟩
      (some (.exact 2))).Returns fun s =>
        s.results = roots.getD [] ∧ s.factored = [] ∧ s.status ≠ .unfactorable :=
    solveWith_returns function claimed axisHeight_zero (by omega) (by omega) (fun _ _ =>
      solveQuadratic_returns (by rw [tells.isZero_eq (toRat?_ofInt (small 2)), decide_eq_false leading])
        hr) (by omega)
  obtain ⟨s, solved, results, -, -⟩ := solving.exists_answer
  rw [degree] at whole dense
  rw [shape] at dense
  rw [pieceInequality_of_quadratic whole dense parsed solved, results]
  rfl

theorem coeff_linear (r a : ℤ) :
    ((X - C r) * C a).coeff 1 = a ∧ ((X - C r) * C a).coeff 0 = -(r * a) := by
  simp only [coeff_linear_mul, coeff_C]
  simp

theorem coeff_quadratic (r s a : ℤ) :
    ((X - C r) * ((X - C s) * C a)).coeff 2 = a ∧
      ((X - C r) * ((X - C s) * C a)).coeff 1 = -(a * (r + s)) ∧
      ((X - C r) * ((X - C s) * C a)).coeff 0 = a * (r * s) := by
  simp only [coeff_linear_mul, coeff_C]
  refine ⟨by simp, ?_, ?_⟩
  · simp
    ring
  · simp
    ring

theorem exists_linearInequality (representable : IsRepresentable ((X - C r) * C a)) (ha : a ≠ 0)
    (degree : ((X - C r) * C a).natDegree = 1) (hr : |r| ≤ 2 ^ 53) :
    ∃ i, pieceInequality settings (Member.canonicalOf ((X - C r) * C a) l) = .ok i ∧
      i.IsFor ((X - C r) * C a) := by
  obtain ⟨leading, constant⟩ := coeff_linear r a
  have sizeA : |a| ≤ 2 ^ 53 := leading ▸ representable.small 1
  have opposite : (ofInt (-(r * a))).neg.toRat? = some ((r * a : ℤ) : ℚ) := by
    have value := Binary64.toRat?_neg (toRat?_ofInt (constant ▸ representable.small 0))
    rwa [← Int.cast_neg, neg_neg] at value
  obtain ⟨q, hq, root⟩ := Binary64.exists_div_eq opposite (toRat?_ofInt sizeA) ha rfl hr
  refine ⟨_, pieceInequality_linear representable degree (by rw [leading, constant]; exact hq), ?_⟩
  rw [leading, root, isPositive_ofInt sizeA]
  simp only [decide_eq_true_iff]
  exact isFor_linear ha hr

theorem isFor_square (positive : Bool) (sign : positive = true ↔ 0 < a) :
    Inequality.IsFor ((X - C r) * ((X - C r) * C a))
      ⟨if positive then .always else .never, [], text⟩ := by
  refine isFor_constant fun x nonzero => ?_
  have value : aeval x ((X - C r) * ((X - C r) * C a)) = (x - r) * (x - r) * a := by
    rw [aeval_linear_mul, aeval_linear_mul, aeval_C, mul_assoc]
    rfl
  rw [value] at nonzero ⊢
  rw [sign, mul_pos_iff_of_pos_left (mul_self_pos.mpr (left_ne_zero_of_mul (left_ne_zero_of_mul nonzero))),
    Int.cast_pos]

theorem exists_quadraticInequality (hl : IsReadable l) (tells : settings.TellsIntegers) (ha : a ≠ 0)
    (le : r ≤ s) (degree : ((X - C r) * ((X - C s) * C a)).natDegree = 2)
    (within : (2 : ℤ) ≤ settings.maxDegree)
    (bound : ∀ k, |((X - C r) * ((X - C s) * C a)).coeff k| ≤ 2 ^ 25) :
    ∃ i, pieceInequality settings (Member.canonicalOf ((X - C r) * ((X - C s) * C a)) l) = .ok i ∧
      i.IsFor ((X - C r) * ((X - C s) * C a)) := by
  obtain ⟨second, first, constant⟩ := coeff_quadratic r s a
  have small : HasSmallCoefficients ((X - C r) * ((X - C s) * C a)) := fun k =>
    (bound k).trans (by norm_num)
  have nonzero : (X - C r) * ((X - C s) * C a) ≠ 0 := ne_zero_of_natDegree_gt (n := 0) (by omega)
  have hr : |r| ≤ 2 ^ 25 := abs_le_of_isRoot bound nonzero (isRoot_linear_mul.mpr (.inl rfl))
  have hs : |s| ≤ 2 ^ 25 := abs_le_of_isRoot bound nonzero
    (isRoot_linear_mul.mpr (.inr (isRoot_linear_mul.mpr (.inl rfl))))
  have size : |a| ≤ 2 ^ 25 := second ▸ bound 2
  have sum : |a * (r + s)| ≤ 2 ^ 25 := by rw [← abs_neg, ← first]; exact bound 1
  have value := toRat?_discriminant (bound 2) (bound 1) (bound 0)
  rw [second, first, constant] at value
  have known := quadraticRoots_of_roots tells ha size sum hr hs le
    (by rw [value]; congr 2; ring)
  have piece := pieceInequality_quadratic hl tells small degree (by omega) (by rw [second, first, constant]; exact known)
  refine ⟨_, piece, ?_⟩
  rw [second, isPositive_ofInt (by omega), Option.getD_some]
  rcases le.eq_or_lt with rfl | lt
  · rw [if_pos rfl]
    exact isFor_square _ decide_eq_true_iff
  · rw [if_neg lt.ne, quadraticInequality]
    simp only [decide_eq_true_iff]
    exact isFor_quadratic ha lt (by omega) (by omega)

theorem aeval_pos_iff_of_discriminant_neg (x : ℚ) (degree : Q.natDegree = 2)
    (negative : Q.coeff 1 * Q.coeff 1 - 4 * Q.coeff 2 * Q.coeff 0 < 0) :
    0 < Q.coeff 2 ↔ 0 < aeval x Q := by
  have cast : (Q.coeff 1 : ℚ) * Q.coeff 1 - 4 * Q.coeff 2 * Q.coeff 0 < 0 := by exact_mod_cast negative
  have product : 0 < (Q.coeff 2 : ℚ) * aeval x Q := by
    rw [aeval_eq_quadratic x degree.le]
    nlinarith [sq_nonneg (2 * (Q.coeff 2 : ℚ) * x + Q.coeff 1)]
  rw [← pos_iff_pos_of_mul_pos product, Int.cast_pos]

theorem exists_pieceInequality (hl : IsReadable l) (tells : settings.TellsIntegers) (nonzero : Q ≠ 0)
    (degree : Q.natDegree ≤ 2) (within : (Q.natDegree : ℤ) ≤ settings.maxDegree)
    (bound : ∀ k, |Q.coeff k| ≤ 2 ^ 25) (roots : HasIntegerRealRoots Q) :
    ∃ i, pieceInequality settings (Member.canonicalOf Q l) = .ok i ∧ i.IsFor Q := by
  have small : HasSmallCoefficients Q := fun k => (bound k).trans (by norm_num)
  have representable := isRepresentable_of_le small (by omega)
  have size : ∀ {r}, Q.IsRoot r → |r| ≤ 2 ^ 25 := abs_le_of_isRoot bound nonzero
  have cases : Q.natDegree = 0 ∨ Q.natDegree = 1 ∨ Q.natDegree = 2 := by omega
  rcases cases with zero | one | two
  · refine ⟨_, pieceInequality_constant representable zero, isFor_constant fun x _ => ?_⟩
    rw [isPositive_ofInt (small 0), decide_eq_true_iff, eq_C_of_natDegree_eq_zero zero, aeval_C,
      coeff_C_zero]
    exact Int.cast_pos.symm
  · obtain ⟨a, r, ha, rfl⟩ := exists_linear roots one
    have hr := size (isRoot_linear_mul.mpr (.inl rfl))
    exact exists_linearInequality representable ha one (by omega)
  · by_cases root : ∃ r, Q.IsRoot r
    · obtain ⟨a, r, s, ha, le, rfl⟩ := exists_quadratic roots two root
      exact exists_quadraticInequality hl tells ha le two (by omega) bound
    · have value := toRat?_discriminant (bound 2) (bound 1) (bound 0)
      have negative := discriminant_neg roots two root
      refine ⟨_, pieceInequality_quadratic hl tells small two within
        (quadraticRoots_of_neg tells value negative _ _), isFor_constant fun x _ => ?_⟩
      rw [isPositive_ofInt (small 2), decide_eq_true_iff]
      exact aeval_pos_iff_of_discriminant_neg x two negative

end Solving

end FunctionStudy
