import Mathlib.Data.Rat.Floor
import Mathlib.Tactic.Linarith
import Mathlib.Tactic.Ring
import Mathlib.Tactic.NormNum
import Mathlib.Tactic.Positivity
import FunctionStudy.Binary64

/-! Rounding on the grid. A rational on the grid rounds to itself, and rounding at most doubles a
size. Nothing is said here about which of two neighbours an inexact value goes to. -/

namespace FunctionStudy

theorem ratAbs_eq_abs (v : ℚ) : v.abs = |v| := by
  rcases le_total 0 v with h | h
  · rw [Rat.abs_of_nonneg h, abs_of_nonneg h]
  · rw [Rat.abs_of_nonpos h, abs_of_nonpos h]

theorem abs_nearestEven_sub_le (v : ℚ) : |(nearestEven v : ℚ) - v| ≤ 1 / 2 := by
  have lower : (v.floor : ℚ) ≤ v := Rat.floor_le v
  have upper : v < v.floor + 1 := by exact_mod_cast Rat.lt_floor_add_one v
  rw [abs_le]
  unfold nearestEven
  split_ifs <;> push_cast <;> constructor <;> linarith

theorem abs_nearestEven_le (v : ℚ) : |(nearestEven v : ℚ)| ≤ 2 * |v| := by
  have error := abs_le.mp (abs_nearestEven_sub_le v)
  by_cases small : nearestEven v = 0
  · simp [small]
  · have one : (1 : ℚ) ≤ |(nearestEven v : ℚ)| := by
      exact_mod_cast Int.one_le_abs small
    have near : |(nearestEven v : ℚ)| ≤ |v| + 1 / 2 := by
      have := abs_sub_abs_le_abs_sub (nearestEven v : ℚ) v
      linarith [abs_nearestEven_sub_le v]
    linarith

/-- The low bits that a 53-bit significand has to drop are zero in a number of the grid. -/
theorem two_pow_excess_dvd {m : ℕ} (k : ℕ) (hm : m ≤ 2 ^ 53) :
    2 ^ ((m * 2 ^ k).log2 + 1 - 53) ∣ m * 2 ^ k := by
  rcases Nat.eq_zero_or_pos m with rfl | pos
  · simp
  rcases Nat.lt_or_eq_of_le hm with lt | rfl
  · have hlog : (m * 2 ^ k).log2 < 53 + k := by
      rw [Nat.log2_lt (by positivity), Nat.pow_add]
      exact Nat.mul_lt_mul_of_pos_right lt (by positivity)
    exact Dvd.dvd.mul_left (Nat.pow_dvd_pow 2 (by omega)) m
  · rw [← Nat.pow_add, Nat.log2_two_pow]
    exact Nat.pow_dvd_pow 2 (by omega)

namespace Binary64

theorem gridValue_of_onGrid {v : ℚ} (h : OnGrid v) : gridValue v = v := by
  obtain ⟨m, k, hm, hv, -⟩ := h
  have steps : v * 2 ^ (1074 : ℕ) = m * 2 ^ k := by rw [hv]; field_simp
  have size : v.abs * 2 ^ (1074 : ℕ) = ((m.natAbs * 2 ^ k : ℕ) : ℚ) := by
    rw [ratAbs_eq_abs]
    calc |v| * 2 ^ (1074 : ℕ) = |v * 2 ^ (1074 : ℕ)| := by rw [abs_mul]; simp
      _ = |(m : ℚ)| * 2 ^ k := by rw [steps, abs_mul]; simp
      _ = _ := by push_cast; rw [Nat.cast_natAbs, Int.cast_abs]
  have excess : excessBits v = (m.natAbs * 2 ^ k).log2 + 1 - 53 := by
    rw [excessBits, size, ← Int.cast_natCast, Rat.floor_intCast, Int.natAbs_natCast]
  obtain ⟨q, hq⟩ : (2 : ℤ) ^ excessBits v ∣ m * 2 ^ k := by
    rw [← Int.natAbs_dvd_natAbs, excess]
    simpa [Int.natAbs_mul, Int.natAbs_pow] using two_pow_excess_dvd k hm
  have cut : v * 2 ^ (1074 : ℕ) / 2 ^ excessBits v = (q : ℚ) := by
    have : (m : ℚ) * 2 ^ k = 2 ^ excessBits v * q := by exact_mod_cast hq
    rw [steps, this]; field_simp
  rw [gridValue, significand, cut, nearestEven_intCast, ← cut]
  field_simp

theorem round_of_onGrid {v : ℚ} (h : OnGrid v) : round v = .finite v h := by
  have value := gridValue_of_onGrid h
  have small : v.abs < 2 ^ (1024 : ℕ) := by obtain ⟨_, _, _, _, h⟩ := h; exact h
  have unsigned : ¬ (v = 0 ∧ v < 0) := by rintro ⟨rfl, h⟩; exact lt_irrefl _ h
  simp only [round, value, unsigned, small, if_false, dif_pos]

theorem abs_gridValue_le (v : ℚ) : |gridValue v| ≤ 2 * |v| := by
  have kept := abs_nearestEven_le (v * 2 ^ (1074 : ℕ) / 2 ^ excessBits v)
  rw [gridValue, significand]
  calc |(nearestEven (v * 2 ^ (1074 : ℕ) / 2 ^ excessBits v) : ℚ) * 2 ^ excessBits v
          / 2 ^ (1074 : ℕ)|
      = |(nearestEven (v * 2 ^ (1074 : ℕ) / 2 ^ excessBits v) : ℚ)| * 2 ^ excessBits v
          / 2 ^ (1074 : ℕ) := by
        rw [abs_div, abs_mul, abs_of_pos (two_pow_pos _), abs_of_pos (two_pow_pos _)]
    _ ≤ 2 * |v * 2 ^ (1074 : ℕ) / 2 ^ excessBits v| * 2 ^ excessBits v / 2 ^ (1074 : ℕ) := by
        gcongr
    _ = 2 * |v| := by
        rw [abs_div, abs_mul, abs_of_pos (two_pow_pos _), abs_of_pos (two_pow_pos _)]
        field_simp

theorem isFinite_round {v : ℚ} (h : |v| < 2 ^ (1023 : ℕ)) : (round v).isFinite = true := by
  have small : (gridValue v).abs < 2 ^ (1024 : ℕ) := by
    rw [ratAbs_eq_abs]
    calc |gridValue v| ≤ 2 * |v| := abs_gridValue_le v
      _ < 2 * 2 ^ (1023 : ℕ) := mul_lt_mul_of_pos_left h two_pos
      _ = 2 ^ (1024 : ℕ) := by rw [← pow_succ']
  unfold round
  split_ifs <;> rfl

end Binary64
end FunctionStudy
