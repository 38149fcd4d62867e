import Mathlib.Data.Nat.Sqrt
import Mathlib.Tactic.Linarith
import FunctionStudy.Binary64.Elementary
import FunctionStudy.Proofs.Binary64.Nearest
import FunctionStudy.Proofs.Binary64.Order

/-! Square roots of doubles. The square root of a perfect square is exact. Of the others only the
size is stated: that the result is the nearest double to the real root is not claimed here. -/

namespace FunctionStudy.Binary64

variable {x : Binary64} {v : ℚ}

/-- The root in half steps of `1 / p`, an odd number of them if it was cut off. -/
def halfSteps (v : ℚ) (p : ℕ) : ℕ :=
  let fine := (v * (p : ℚ) ^ 2).floor.toNat
  let root := Nat.sqrt fine
  2 * root + if root * root = fine then 0 else 1

theorem exists_sqrt_eq (hx : x.toRat? = some v) (positive : 0 < v) :
    ∃ p : ℕ, 0 < p ∧ x.sqrt = round (halfSteps v p / (2 * p)) := by
  obtain ⟨h, rfl⟩ := eq_finite hx positive.ne'
  refine ⟨2 ^ 637, by positivity, ?_⟩
  have square : (2 : ℚ) ^ (1274 : ℕ) = ((2 ^ 637 : ℕ) : ℚ) ^ 2 := by
    rw [Nat.cast_pow, Nat.cast_ofNat, ← pow_mul]
  have half : (2 : ℚ) ^ (638 : ℕ) = 2 * ((2 ^ 637 : ℕ) : ℚ) := by
    rw [Nat.cast_pow, Nat.cast_ofNat, ← pow_succ']
  rw [sqrt, if_neg positive.not_gt, square, half]
  rfl

theorem halfSteps_square (m p : ℕ) : halfSteps ((m : ℚ) ^ 2) p = 2 * (m * p) := by
  have steps : ((m : ℚ) ^ 2 * (p : ℚ) ^ 2) = ((((m * p) * (m * p) : ℕ) : ℤ) : ℚ) := by
    push_cast
    ring
  rw [halfSteps, steps, Rat.floor_intCast, Int.toNat_natCast]
  simp [Nat.sqrt_eq]

theorem halfSteps_le {b : ℕ} (p : ℕ) (h : v ≤ (b : ℚ) ^ 2) : halfSteps v p ≤ 2 * (b * p) + 1 := by
  have fine : (v * (p : ℚ) ^ 2).floor.toNat ≤ (b * p) * (b * p) := by
    have below : (v * (p : ℚ) ^ 2).floor ≤ (((b * p) * (b * p) : ℕ) : ℤ) := by
      have := Rat.floor_le (v * (p : ℚ) ^ 2)
      have scaled : v * (p : ℚ) ^ 2 ≤ (b : ℚ) ^ 2 * (p : ℚ) ^ 2 :=
        mul_le_mul_of_nonneg_right h (by positivity)
      rw [← Int.cast_le (R := ℚ)]
      push_cast
      linarith
    omega
  have root := Nat.sqrt_le_sqrt fine
  rw [Nat.sqrt_eq] at root
  unfold halfSteps
  dsimp only
  split_ifs <;> omega

theorem le_halfSteps {b : ℕ} (p : ℕ) (h : (b : ℚ) ^ 2 ≤ v) : 2 * (b * p) ≤ halfSteps v p := by
  have fine : (b * p) * (b * p) ≤ (v * (p : ℚ) ^ 2).floor.toNat := by
    have below : (((b * p) * (b * p) : ℕ) : ℤ) ≤ (v * (p : ℚ) ^ 2).floor := by
      rw [Rat.le_floor_iff]
      push_cast
      calc (b * p * (b * p) : ℚ) = (b : ℚ) ^ 2 * (p : ℚ) ^ 2 := by ring
        _ ≤ v * (p : ℚ) ^ 2 := mul_le_mul_of_nonneg_right h (by positivity)
    omega
  have root := Nat.sqrt_le_sqrt fine
  rw [Nat.sqrt_eq] at root
  unfold halfSteps
  dsimp only
  omega

theorem sqrt_square {m : ℕ} (hx : x.toRat? = some ((m : ℚ) ^ 2)) (positive : 0 < m) :
    x.sqrt = ofInt m := by
  obtain ⟨p, hp, root⟩ := exists_sqrt_eq hx (by positivity)
  have steps : (halfSteps ((m : ℚ) ^ 2) p : ℚ) / (2 * p) = m := by
    rw [halfSteps_square]
    push_cast
    field_simp
  rw [root, steps, ofInt, Int.cast_natCast]

theorem exists_sqrt_le {b : ℕ} (hx : x.toRat? = some v) (positive : 0 < v) (h : v ≤ (b : ℚ) ^ 2)
    (small : (b : ℚ) + 1 ≤ 2 ^ (1000 : ℕ)) : ∃ w, x.sqrt.toRat? = some w ∧ |w| ≤ 2 * (b + 1) := by
  obtain ⟨p, hp, root⟩ := exists_sqrt_eq hx positive
  have scale : (1 : ℚ) ≤ p := by exact_mod_cast hp
  have steps : (halfSteps v p : ℚ) ≤ 2 * (b * p) + 1 := by exact_mod_cast halfSteps_le p h
  have double : (0 : ℚ) < 2 * p := by linarith only [scale]
  have size : |(halfSteps v p : ℚ) / (2 * p)| ≤ b + 1 := by
    rw [abs_of_nonneg (div_nonneg (Nat.cast_nonneg _) double.le), div_le_iff₀ double]
    linarith only [scale, steps]
  refine ⟨_, root ▸ toRat?_round_of_abs_le (size.trans small), ?_⟩
  linarith only [size, abs_gridValue_le ((halfSteps v p : ℚ) / (2 * p))]

theorem le_toRat_sqrt {b : ℕ} {w : ℚ} (hx : x.toRat? = some v) (positive : 0 < v) (h : (b : ℚ) ^ 2 ≤ v)
    (grid : OnGrid b) (root : x.sqrt.toRat? = some w) : (b : ℚ) ≤ w := by
  obtain ⟨p, hp, rounded⟩ := exists_sqrt_eq hx positive
  have scale : (0 : ℚ) < 2 * p := by exact_mod_cast Nat.mul_pos two_pos hp
  have steps : (b : ℚ) ≤ (halfSteps v p : ℚ) / (2 * p) := by
    rw [le_div_iff₀ scale, mul_left_comm]
    exact_mod_cast le_halfSteps p h
  have finite : (round ((halfSteps v p : ℚ) / (2 * p))).isFinite = true := by
    rw [← rounded, isFinite, root, Option.isSome_some]
  rw [rounded, toRat?_round_of_isFinite finite, Option.some.injEq] at root
  rw [← gridValue_of_onGrid grid, ← root]
  exact gridValue_mono steps

end FunctionStudy.Binary64
