import Mathlib.Algebra.Polynomial.Reverse
import Mathlib.Algebra.Polynomial.Roots
import FunctionStudy.Proofs.Equation
import FunctionStudy.Proofs.Ruffini.Factoring

/-! Splitting an integer root off. Where rational roots are integers, a split of an integer
polynomial writes down the quotient and the linear factor in full: both texts are canonical ones of
integer polynomials with that product. -/

namespace FunctionStudy

open Polynomial

variable {P Q : ℤ[X]} {r : ℤ} {l : Char}

section Division

theorem coeff_linear_mul (Q : ℤ[X]) (r : ℤ) (k : ℕ) :
    ((X - C r) * Q).coeff k = (if k = 0 then 0 else Q.coeff (k - 1)) - r * Q.coeff k := by
  cases k with
  | zero => simp [sub_mul]
  | succ k => simp [sub_mul, coeff_X_mul]

theorem sumsAfter_linear_mul (Q : ℤ[X]) (r : ℤ) (k : ℕ) :
    sumsAfter r (Q.coeff k) (exactDenseTo ((X - C r) * Q) k) = exactDenseTo Q k ++ [0] := by
  induction k with
  | zero => simp [exactDenseTo, sumsAfter, mul_comm]
  | succ k ih =>
    have next : (((X - C r) * Q).coeff (k + 1) : ℚ) + Q.coeff (k + 1) * r = Q.coeff k := by
      rw [coeff_linear_mul, if_neg k.succ_ne_zero, Nat.add_sub_cancel]
      push_cast
      ring
    rw [exactDenseTo_succ, sumsAfter, next, ih, exactDenseTo_succ, List.cons_append]

theorem natDegree_linear_mul (nonzero : Q ≠ 0) :
    ((X - C r) * Q).natDegree = Q.natDegree + 1 := by
  rw [natDegree_mul (X_sub_C_ne_zero r) nonzero, natDegree_X_sub_C, add_comm]

theorem leadingCoeff_linear_mul : ((X - C r) * Q).leadingCoeff = Q.leadingCoeff := by
  rw [leadingCoeff_mul, leadingCoeff_X_sub_C, one_mul]

theorem roots_linear_mul (nonzero : Q ≠ 0) : ((X - C r) * Q).roots = r ::ₘ Q.roots := by
  rw [roots_mul (mul_ne_zero (X_sub_C_ne_zero r) nonzero), roots_X_sub_C, Multiset.singleton_add]

theorem isRoot_linear_mul {z : ℤ} : ((X - C r) * Q).IsRoot z ↔ z = r ∨ Q.IsRoot z := by
  rw [IsRoot.def, eval_mul, mul_eq_zero, eval_sub, eval_X, eval_C, sub_eq_zero, IsRoot.def]

theorem syntheticDivision_linear_mul (small : HasSmallCoefficients ((X - C r) * Q))
    (nonzero : Q ≠ 0) : ∃ products,
    syntheticDivision ((dense ((X - C r) * Q)).map .double) (.exact r) =
      .ok ⟨products, exactDense Q ++ [0]⟩ := by
  have degree := natDegree_linear_mul (r := r) nonzero
  have first : (((X - C r) * Q).coeff (Q.natDegree + 1)) = Q.coeff Q.natDegree := by
    rw [← degree, coeff_natDegree, leadingCoeff_linear_mul, leadingCoeff]
  have exact := mapM_exact_denseTo small ((X - C r) * Q).natDegree
  rw [degree, exactDenseTo_succ, first] at exact
  rw [dense, degree, syntheticDivision_eq exact, divideSynthetically, sumsAfter_linear_mul,
    exactDense]
  exact ⟨_, rfl⟩

theorem map_round_exactDense (Q : ℤ[X]) : (exactDense Q).map Binary64.round = dense Q := by
  rw [exactDense, exactDenseTo, List.map_map]
  rfl

end Division

theorem abs_le_of_isRoot {B : ℤ} (bound : ∀ k, |P.coeff k| ≤ B) (nonzero : P ≠ 0)
    (root : P.IsRoot r) : |r| ≤ B := by
  obtain ⟨Q, rfl⟩ := dvd_iff_isRoot.mpr root
  have other : Q ≠ 0 := right_ne_zero_of_mul nonzero
  have last : ((X - C r) * Q).coeff Q.natTrailingDegree = -(r * Q.trailingCoeff) := by
    rw [coeff_linear_mul, trailingCoeff]
    split_ifs with zero
    · rw [zero_sub]
    · rw [coeff_eq_zero_of_lt_natTrailingDegree (by omega), zero_sub]
  have size := bound Q.natTrailingDegree
  rw [last, abs_neg, abs_mul] at size
  have least : 1 ≤ |Q.trailingCoeff| := Int.one_le_abs (trailingCoeff_nonzero_iff_nonzero.mpr other)
  nlinarith [abs_nonneg r]

theorem abs_coeff_le_of_dvd_X_pow {n : ℕ} (monic : Q.Monic) (divides : Q ∣ X ^ n) (k : ℕ) :
    |Q.coeff k| ≤ 1 := by
  obtain ⟨i, -, same⟩ := (dvd_prime_pow prime_X n).mp divides
  rw [eq_of_monic_of_associated monic (monic_X_pow i) same, coeff_X_pow]
  split_ifs <;> simp

theorem aeval_intCast_eq_zero : aeval (r : ℚ) P = 0 ↔ P.IsRoot r := by
  have value : aeval (r : ℚ) P = ((P.eval r : ℤ) : ℚ) := aeval_algebraMap_apply_eq_algebraMap_eval r P
  rw [value, Int.cast_eq_zero, IsRoot.def]

/-- The rational roots are integers. -/
def HasIntegerRoots (P : ℤ[X]) : Prop := ∀ x : ℚ, aeval x P = 0 → ∃ r : ℤ, x = r

/-- What splitting comes to where rational roots are integers. -/
def Factorization.SplitsOff (P : ℤ[X]) (l : Char) (F : Factorization) : Prop :=
  (F.split = none ∧ ∀ r, ¬ P.IsRoot r) ∨
    ∃ s r Q, F.split = some s ∧ P = (X - C r) * Q ∧
      s.quotient = Member.textOf Q l ∧ s.divisor = Member.textOf (X - C r) l

theorem Factorization.IsRight.splitsOff {F : Factorization} (h : F.IsRight P l)
    (small : HasSmallCoefficients P) (nonzero : P ≠ 0) (integers : HasIntegerRoots P) :
    F.SplitsOff P l := by
  cases hs : F.split with
  | none =>
    refine .inl ⟨hs, fun r root => ?_⟩
    have split := h.isSplit_iff.mpr ⟨r, aeval_intCast_eq_zero.mpr root⟩
    simp [isSplit, hs] at split
  | some s =>
    obtain ⟨cands, root, -, found, ⟨products, sums, divided, -, -, -, table⟩, quotient, divisor⟩ :=
      h.split s hs
    have zero : aeval root P = 0 := by simpa using List.find?_some found
    obtain ⟨r, rfl⟩ := integers root zero
    have isRoot := aeval_intCast_eq_zero.mp zero
    have size := abs_le_of_isRoot small nonzero isRoot
    obtain ⟨Q, rfl⟩ := dvd_iff_isRoot.mpr isRoot
    obtain ⟨products', exact⟩ := syntheticDivision_linear_mul small (right_ne_zero_of_mul nonzero)
    rw [divided] at exact
    obtain ⟨rfl, rfl⟩ := Division.mk.inj (Except.ok.inj exact)
    refine .inr ⟨s, r, Q, hs, rfl, ?_, ?_⟩
    · rw [quotient, table, RuffiniTable.quotient, List.map_append, List.map_singleton,
        List.dropLast_concat, map_round_exactDense]
      rfl
    · rw [divisor, table]
      exact linearFactor_eq_textOf size l

end FunctionStudy
