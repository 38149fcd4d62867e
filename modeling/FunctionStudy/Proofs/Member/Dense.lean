import Mathlib.Algebra.Polynomial.AlgebraMap
import Mathlib.Algebra.Polynomial.Eval.Degree
import FunctionStudy.Proofs.Member.Integer
import FunctionStudy.Proofs.Ruffini.Quotient
import FunctionStudy.Ruffini

/-! Dense integer polynomials. The dense coefficients of an integer polynomial, as doubles and
exactly, and what is known of the polynomial from them. -/

namespace FunctionStudy

open Polynomial

/-- The doubles of all coefficients of a polynomial. -/
noncomputable def dense (P : ℤ[X]) : List Binary64 := denseTo P P.natDegree

/-- The coefficients themselves. -/
noncomputable def exactDenseTo (P : ℤ[X]) (d : ℕ) : List ℚ :=
  (List.range (d + 1)).reverse.map fun k => (P.coeff k : ℚ)

noncomputable def exactDense (P : ℤ[X]) : List ℚ := exactDenseTo P P.natDegree

theorem denseTo_succ (P : ℤ[X]) (d : ℕ) :
    denseTo P (d + 1) = .ofInt (P.coeff (d + 1)) :: denseTo P d := by
  simp [denseTo, List.range_succ]

theorem exactDenseTo_succ (P : ℤ[X]) (d : ℕ) :
    exactDenseTo P (d + 1) = (P.coeff (d + 1) : ℚ) :: exactDenseTo P d := by
  simp [exactDenseTo, List.range_succ]

@[simp] theorem length_denseTo (P : ℤ[X]) (d : ℕ) : (denseTo P d).length = d + 1 := by
  simp [denseTo]

@[simp] theorem length_exactDenseTo (P : ℤ[X]) (d : ℕ) : (exactDenseTo P d).length = d + 1 := by
  simp [exactDenseTo]

variable {P : ℤ[X]}

theorem isZero_ofInt {z : ℤ} (small : |z| ≤ 2 ^ 53) : (Binary64.ofInt z).isZero = true ↔ z = 0 := by
  rw [Binary64.isZero_iff (Binary64.toRat?_ofInt small), Int.cast_eq_zero]

theorem dropLeadingZeros_denseTo (small : HasSmallCoefficients P) {d : ℕ} (hd : P.natDegree ≤ d) :
    dropLeadingZeros (denseTo P d) = dense P := by
  have shape : ∀ e, ∃ c rest, denseTo P e = c :: rest := fun e =>
    List.exists_cons_of_length_pos (by simp)
  induction d, hd using Nat.le_induction with
  | base =>
    unfold dense
    cases hn : P.natDegree with
    | zero => simp [denseTo, dropLeadingZeros]
    | succ n =>
      have leading : P.coeff (n + 1) ≠ 0 := by
        rw [← hn]
        exact leadingCoeff_ne_zero.mpr (ne_zero_of_natDegree_gt (n := 0) (by omega))
      have kept : ¬ (Binary64.ofInt (P.coeff (n + 1))).isZero = true := by
        rwa [isZero_ofInt (small _)]
      obtain ⟨c, rest, rest_eq⟩ := shape n
      rw [denseTo_succ, rest_eq, dropLeadingZeros, if_neg kept]
  | succ d hd ih =>
    have zero : P.coeff (d + 1) = 0 := coeff_eq_zero_of_natDegree_lt (by omega)
    have dropped : (Binary64.ofInt (P.coeff (d + 1))).isZero = true := by
      rwa [isZero_ofInt (small _)]
    obtain ⟨c, rest, rest_eq⟩ := shape d
    rw [denseTo_succ, rest_eq, dropLeadingZeros, if_pos dropped, ← rest_eq, ih]

theorem hasDoubleExponents_denseTo (small : HasSmallCoefficients P)
    (exponents : ∀ k, P.coeff k ≠ 0 → IsDouble k) (d : ℕ) : HasDoubleExponents (denseTo P d) := by
  refine hasDoubleExponents_range.mpr fun k _ nonzero => exponents k ?_
  rwa [← Bool.not_eq_true, isZero_ofInt (small k)] at nonzero

theorem isFinite_denseTo (small : HasSmallCoefficients P) (d : ℕ) :
    ∀ c ∈ denseTo P d, c.isFinite = true := by
  intro c hc
  obtain ⟨k, -, rfl⟩ := List.mem_map.mp hc
  rw [Binary64.isFinite, Binary64.toRat?_ofInt (small k), Option.isSome_some]

theorem mapM_exact_denseTo (small : HasSmallCoefficients P) (d : ℕ) :
    (denseTo P d).mapM Decimal.exact = .ok (exactDenseTo P d) := by
  rw [denseTo, List.mapM_map, exactDenseTo]
  exact mapM_eq_ok fun k _ => Decimal.exact_intCast (Binary64.toRat?_ofInt (small k))

theorem denseValue_exactDenseTo (P : ℤ[X]) (d : ℕ) (x : ℚ) :
    denseValue (exactDenseTo P d) x = ∑ k ∈ Finset.range (d + 1), (P.coeff k : ℚ) * x ^ k := by
  induction d with
  | zero => simp [exactDenseTo, denseValue]
  | succ d ih =>
    rw [exactDenseTo_succ, denseValue, ih, Finset.sum_range_succ _ (d + 1), length_exactDenseTo,
      add_comm]

theorem denseValue_exactDense (P : ℤ[X]) (x : ℚ) : denseValue (exactDense P) x = aeval x P := by
  rw [exactDense, denseValue_exactDenseTo, aeval_eq_sum_range]
  exact Finset.sum_congr rfl fun k _ => by simp

theorem areIntegers_exactDenseTo (P : ℤ[X]) (d : ℕ) : AreIntegers (exactDenseTo P d) := by
  intro c hc
  obtain ⟨k, -, rfl⟩ := List.mem_map.mp hc
  exact ⟨P.coeff k, rfl⟩

section Size

theorem totalSize_exactDenseTo (P : ℤ[X]) (d : ℕ) :
    totalSize (exactDenseTo P d) = ∑ k ∈ Finset.range (d + 1), |(P.coeff k : ℚ)| := by
  induction d with
  | zero => simp [exactDenseTo, totalSize]
  | succ d ih => rw [exactDenseTo_succ, totalSize_cons, ih, Finset.sum_range_succ _ (d + 1), add_comm]

theorem card_le_of_shifts {s : Finset ℕ} {M E a : ℕ}
    (h : ∀ k ∈ s, ∃ m e, m ≤ M ∧ e < E ∧ k * 2 ^ a = m * 2 ^ e) : s.card ≤ (M + 1) * E := by
  have covered : s ⊆ ((Finset.range (M + 1)) ×ˢ (Finset.range E)).image
      fun q : ℕ × ℕ => q.1 * 2 ^ q.2 / 2 ^ a := by
    intro k hk
    obtain ⟨m, e, hm, he, shifted⟩ := h k hk
    refine Finset.mem_image.mpr ⟨(m, e), ?_, ?_⟩
    · simp only [Finset.mem_product, Finset.mem_range]
      omega
    · rw [← shifted, Nat.mul_div_cancel _ (Nat.two_pow_pos a)]
  calc s.card ≤ _ := Finset.card_le_card covered
    _ ≤ ((Finset.range (M + 1)) ×ˢ (Finset.range E)).card := Finset.card_image_le
    _ = (M + 1) * E := by rw [Finset.card_product, Finset.card_range, Finset.card_range]

theorem shift_lt {k m e a b : ℕ} (positive : 0 < k) (size : k < 2 ^ b)
    (h : k * 2 ^ a = m * 2 ^ e) : e < b + a := by
  have nonzero : 0 < m := Nat.pos_of_ne_zero fun zero => by
    rw [zero, Nat.zero_mul] at h
    exact absurd h (Nat.mul_pos positive (Nat.two_pow_pos a)).ne'
  rw [← Nat.pow_lt_pow_iff_right (a := 2) (by omega), pow_add]
  calc 2 ^ e ≤ m * 2 ^ e := Nat.le_mul_of_pos_left _ nonzero
    _ = k * 2 ^ a := h.symm
    _ < 2 ^ b * 2 ^ a := Nat.mul_lt_mul_of_pos_right size (Nat.two_pow_pos a)

theorem exists_shift {k : ℕ} (h : OnGrid (k : ℚ)) :
    ∃ m e, m ≤ 9007199254740992 ∧ e < 1024 + 1074 ∧ k * 2 ^ 1074 = m * 2 ^ e := by
  rcases Nat.eq_zero_or_pos k with rfl | positive
  · exact ⟨0, 0, by omega, by omega, by rw [Nat.zero_mul, Nat.zero_mul]⟩
  obtain ⟨m, e, hm, hv, bound⟩ := h
  have size : k < 2 ^ 1024 := by
    rw [ratAbs_eq_abs, abs_of_nonneg (Nat.cast_nonneg k)] at bound
    exact_mod_cast bound
  have steps : (0 : ℚ) < m * 2 ^ e / 2 ^ (1074 : ℕ) := hv ▸ Nat.cast_pos.mpr positive
  have scaled : (0 : ℚ) < m * 2 ^ e := (div_pos_iff_of_pos_right (Binary64.two_pow_pos _)).mp steps
  have sign : 0 < m := by
    exact_mod_cast pos_of_mul_pos_left scaled (Binary64.two_pow_pos e).le
  lift m to ℕ using sign.le
  have whole : k * 2 ^ 1074 = m * 2 ^ e := by
    apply Nat.cast_injective (R := ℚ)
    rw [Nat.cast_mul, Nat.cast_mul, Nat.cast_pow, Nat.cast_pow, Nat.cast_ofNat, hv,
      div_mul_cancel₀ _ (Binary64.two_pow_pos 1074).ne', Int.cast_natCast]
  exact ⟨m, e, by simpa using hm, shift_lt positive size whole, whole⟩

theorem totalSize_exactDenseTo_le (small : HasSmallCoefficients P)
    (exponents : ∀ k, P.coeff k ≠ 0 → IsDouble k) (d : ℕ) :
    totalSize (exactDenseTo P d) ≤ 2 ^ 119 := by
  have term : ∀ k ∈ Finset.range (d + 1), |(P.coeff k : ℚ)| ≤
      if k ∈ P.support then 2 ^ 53 else 0 := by
    intro k _
    split_ifs with hk
    · exact_mod_cast small k
    · rw [notMem_support_iff.mp hk]; simp
  have card : P.support.card ≤ (9007199254740992 + 1) * (1024 + 1074) :=
    card_le_of_shifts fun k hk =>
      exists_shift (Binary64.onGrid_of_toRat? (exponents k (mem_support_iff.mp hk)))
  rw [totalSize_exactDenseTo]
  calc ∑ k ∈ Finset.range (d + 1), |(P.coeff k : ℚ)|
      ≤ ∑ k ∈ Finset.range (d + 1), if k ∈ P.support then (2 : ℚ) ^ 53 else 0 :=
        Finset.sum_le_sum term
    _ ≤ ∑ k ∈ P.support, (2 : ℚ) ^ 53 := by
        rw [Finset.sum_ite_mem]
        exact Finset.sum_le_sum_of_subset_of_nonneg Finset.inter_subset_right fun _ _ _ => by
          positivity
    _ = P.support.card * 2 ^ 53 := by rw [Finset.sum_const, nsmul_eq_mul]
    _ ≤ ((9007199254740992 + 1) * (1024 + 1074) : ℕ) * 2 ^ 53 := by gcongr
    _ ≤ 2 ^ 119 := by norm_num

end Size

end FunctionStudy
