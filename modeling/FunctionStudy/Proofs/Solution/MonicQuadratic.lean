import Mathlib.Algebra.Polynomial.Degree.SmallDegree
import Mathlib.Algebra.Polynomial.Roots
import FunctionStudy.Proofs.Solution.Quadratic

/-! Monic quadratic divisors with a positive discriminant that is no square have two real roots,
which are computed. Such a divisor stays when a linear factor is split off. -/

namespace FunctionStudy

open Polynomial
open Binary64 (ofInt toRat?_ofInt)

/-- The monic quadratic with the two lower coefficients. -/
noncomputable def quadratic (b c : ℤ) : ℤ[X] := X ^ 2 + C b * X + C c

/-- A computed root of a quadratic divisor with a positive discriminant that is no square. -/
def IsSurd (settings : Settings) (P : ℤ[X]) (x : Binary64) : Prop :=
  ∃ b c : ℤ, quadratic b c ∣ P ∧ 0 < b * b - 4 * c ∧ ¬ IsSquare (b * b - 4 * c) ∧
    ∃ roots, quadraticRoots settings (ofInt 1) (ofInt b)
      (discriminant (ofInt 1) (ofInt b) (ofInt c)) = .ok (some roots) ∧ x ∈ roots

variable {P Q : ℤ[X]} {b c r s : ℤ} {settings : Settings} {x : Binary64}

section Quadratic

theorem natDegree_quadratic (b c : ℤ) : (quadratic b c).natDegree = 2 := by
  unfold quadratic
  compute_degree!

theorem monic_quadratic (b c : ℤ) : (quadratic b c).Monic := by
  unfold quadratic
  monicity!

@[simp] theorem coeff_quadratic_one (b c : ℤ) : (quadratic b c).coeff 1 = b := by
  simp only [quadratic, coeff_add, coeff_X_pow, coeff_C_mul, coeff_X_one, coeff_C_succ]
  norm_num

@[simp] theorem coeff_quadratic_zero (b c : ℤ) : (quadratic b c).coeff 0 = c := by
  simp [quadratic]

theorem eq_quadratic (monic : P.Monic) (degree : P.natDegree = 2) :
    P = quadratic (P.coeff 1) (P.coeff 0) := by
  have leading : P.coeff 2 = 1 := by
    rw [← degree]
    exact monic
  have terms := P.as_sum_range_C_mul_X_pow
  rw [degree, Finset.sum_range_succ, Finset.sum_range_succ, Finset.sum_range_one, leading] at terms
  calc P = C (P.coeff 0) * X ^ 0 + C (P.coeff 1) * X ^ 1 + C 1 * X ^ 2 := terms
    _ = quadratic (P.coeff 1) (P.coeff 0) := by
      rw [quadratic, C_1]
      ring

theorem isRoot_quadratic : (quadratic b c).IsRoot r ↔ r * r + b * r + c = 0 := by
  simp [quadratic, sq]

theorem isSquare_discriminant (root : (quadratic b c).IsRoot r) : IsSquare (b * b - 4 * c) := by
  rw [isRoot_quadratic] at root
  exact ⟨2 * r + b, by linear_combination -4 * root⟩

theorem exists_roots_of_isSquare (square : IsSquare (b * b - 4 * c)) :
    ∃ r s, r ≤ s ∧ b = -(r + s) ∧ c = r * s := by
  obtain ⟨m, hm⟩ := square
  have size : |m| * |m| = m * m := abs_mul_abs_self m
  have parity : Even ((b - |m|) * (b + |m|)) := ⟨2 * c, by linear_combination hm - size⟩
  rw [Int.even_mul, Int.even_sub, Int.even_add, or_self, ← Int.even_add] at parity
  obtain ⟨k, hk⟩ := parity
  have sum : b = 2 * k - |m| := by omega
  refine ⟨-k, |m| - k, by linarith [abs_nonneg m], by linarith, ?_⟩
  have product : 4 * c = 4 * (-k * (|m| - k)) := by
    rw [sum] at hm
    linear_combination size - hm
  exact mul_left_cancel₀ four_ne_zero product

theorem isRoot_of_sum_product {t : ℤ} :
    (quadratic (-(r + s)) (r * s)).IsRoot t ↔ t = r ∨ t = s := by
  have factored : t * t + -(r + s) * t + r * s = (t - r) * (t - s) := by ring
  rw [isRoot_quadratic, factored, mul_eq_zero, sub_eq_zero, sub_eq_zero]

end Quadratic

section Surds

theorem IsSurd.mono (h : IsSurd settings Q x) (divides : Q ∣ P) : IsSurd settings P x := by
  obtain ⟨b, c, divisor, rest⟩ := h
  exact ⟨b, c, divisor.trans divides, rest⟩

theorem dvd_of_dvd_linear_mul {D : ℤ[X]} (divides : D ∣ (X - C r) * Q) (root : ¬ D.IsRoot r) :
    D ∣ Q := by
  obtain ⟨A, product⟩ := divides
  have prime := prime_X_sub_C r
  rcases prime.dvd_or_dvd (product ▸ dvd_mul_right (X - C r) Q) with first | ⟨B, rfl⟩
  · exact absurd (dvd_iff_isRoot.mp first) root
  · refine ⟨B, mul_left_cancel₀ prime.ne_zero ?_⟩
    rw [product]
    ring

theorem isSurd_linear_mul : IsSurd settings ((X - C r) * Q) x ↔ IsSurd settings Q x := by
  constructor
  · rintro ⟨b, c, divisor, positive, square, rest⟩
    exact ⟨b, c, dvd_of_dvd_linear_mul divisor (mt isSquare_discriminant square), positive, square,
      rest⟩
  · exact fun h => h.mono (dvd_mul_left Q (X - C r))

theorem not_isSurd_of_natDegree (nonzero : P ≠ 0) (degree : P.natDegree < 2) :
    ¬ IsSurd settings P x := by
  rintro ⟨b, c, divisor, -⟩
  have least := natDegree_le_of_dvd divisor nonzero
  rw [natDegree_quadratic] at least
  omega

theorem isSurd_quadratic : IsSurd settings (quadratic b c) x ↔
    0 < b * b - 4 * c ∧ ¬ IsSquare (b * b - 4 * c) ∧ ∃ roots, quadraticRoots settings (ofInt 1) (ofInt b)
      (discriminant (ofInt 1) (ofInt b) (ofInt c)) = .ok (some roots) ∧ x ∈ roots := by
  constructor
  · rintro ⟨b', c', divisor, rest⟩
    have same := eq_of_monic_of_dvd_of_natDegree_le (monic_quadratic b' c') (monic_quadratic b c)
      divisor (by rw [natDegree_quadratic, natDegree_quadratic])
    have linear := congrArg (fun D => D.coeff 1) same
    have constant := congrArg (fun D => D.coeff 0) same
    simp only [coeff_quadratic_one, coeff_quadratic_zero] at linear constant
    rwa [linear, constant]
  · exact fun rest => ⟨b, c, dvd_rfl, rest⟩

end Surds

end FunctionStudy
