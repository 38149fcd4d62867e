import FunctionStudy.Proofs.Binary64.SquareRoot
import FunctionStudy.Proofs.Decimal.Settled

/-! Relative errors. Rounding moves a value that is not tiny by at most its `2^-53`th part, so a
number that was rounded `n` times on its way is within `(1 + 2^-53)^n` of the exact one. -/

namespace FunctionStudy

open Binary64 (gridValue lastPlace lastPlace_pos round)

variable {u v w x y : ℚ} {m n : ℕ}

section Rounding

namespace Binary64

theorem abs_gridValue_sub_le_half (v : ℚ) : |gridValue v - v| ≤ lastPlace v / 2 := by
  have place := lastPlace_pos v
  have nearest := abs_nearestEven_sub_le (v / lastPlace v)
  have scaled : gridValue v - v = (nearestEven (v / lastPlace v) - v / lastPlace v) * lastPlace v := by
    rw [gridValue_eq, sub_mul, div_mul_cancel₀ _ place.ne']
  rw [scaled, abs_mul, abs_of_pos place]
  calc |(nearestEven (v / lastPlace v) : ℚ) - v / lastPlace v| * lastPlace v
      ≤ 1 / 2 * lastPlace v := by gcongr
    _ = lastPlace v / 2 := by ring

theorem abs_gridValue_sub_le_relative (v : ℚ) :
    |gridValue v - v| ≤ |v| / 2 ^ 53 ∨ |gridValue v - v| ≤ 1 / 2 ^ (1075 : ℕ) := by
  have half := abs_gridValue_sub_le_half v
  rcases Nat.eq_zero_or_pos (excessBits v) with none | bits
  · right
    rw [lastPlace, none, pow_zero, div_div, ← pow_succ] at half
    exact half
  · left
    have more := le_of_excessBits bits
    linarith

/-- A negative number of whole steps is not rounded to zero: one step is nearer. -/
theorem round_ne_negZero {z : ℤ} (steps : v * 2 ^ (1074 : ℕ) = z) : round v ≠ .negZero := by
  intro rounded
  have scale := two_pow_pos 1074
  unfold round at rounded
  split_ifs at rounded with vanished
  obtain ⟨zero, negative⟩ := vanished
  have step : HasSteps (-1 / 2 ^ (1074 : ℕ)) :=
    ⟨-1, 0, by norm_num, by rw [pow_zero, mul_one, div_mul_cancel₀ _ scale.ne', Int.cast_neg, Int.cast_one]⟩
  have whole : z ≤ -1 := by
    have below : (z : ℚ) < 0 := steps ▸ mul_neg_of_neg_of_pos negative scale
    have : z < 0 := by exact_mod_cast below
    omega
  have least : v ≤ -1 / 2 ^ (1074 : ℕ) := by
    rw [le_div_iff₀ scale, steps]
    exact_mod_cast whole
  have tiny : -1 / 2 ^ (1074 : ℕ) < (0 : ℚ) := div_neg_of_neg_of_pos (by norm_num) scale
  have near := abs_gridValue_sub_le step v
  rw [zero, zero_sub, abs_neg, abs_of_neg negative, abs_of_nonneg (sub_nonneg.mpr least)] at near
  generalize -1 / (2 : ℚ) ^ (1074 : ℕ) = u at near tiny
  linarith

theorem add_ne_negZero {a b : Binary64} (h : a ≠ .negZero) : a.add b ≠ .negZero := by
  cases ha : a.toRat? with
  | none =>
    cases a <;> cases b <;> simp_all [add, toRat?]
    split_ifs <;> simp
  | some v =>
    cases hb : b.toRat? with
    | none => cases a <;> cases b <;> simp_all [add, toRat?]
    | some w =>
      obtain ⟨i, j, -, hv⟩ := (onGrid_of_toRat? ha).hasSteps
      obtain ⟨k, l, -, hw⟩ := (onGrid_of_toRat? hb).hasSteps
      rw [add_eq_round ha hb (.inl h)]
      refine round_ne_negZero (z := i * 2 ^ j + k * 2 ^ l) ?_
      rw [add_mul, hv, hw]
      push_cast
      ring

/-- Sums start at the positive zero, so none of them is the negative one. -/
theorem sum_ne_negZero (xs : List Binary64) : sum xs ≠ .negZero := by
  suffices ∀ start : Binary64, start ≠ .negZero → xs.foldl add start ≠ .negZero from
    this zero (by simp [zero])
  induction xs with
  | nil => exact fun start h => h
  | cons x xs ih => exact fun start h => ih _ (add_ne_negZero h)

end Binary64

end Rounding

section Within

/-- At most `n` roundings away from a value. -/
def IsWithin (n : ℕ) (x v : ℚ) : Prop := |x - v| ≤ ((1 + 1 / 2 ^ 53) ^ n - 1) * |v|

theorem IsWithin.abs_le (h : IsWithin n x v) : |x| ≤ (1 + 1 / 2 ^ 53) ^ n * |v| := by
  have split := abs_add_le (x - v) v
  rw [sub_add_cancel] at split
  unfold IsWithin at h
  linarith

theorem one_le_growth (n : ℕ) : (1 : ℚ) ≤ (1 + 1 / 2 ^ 53) ^ n := one_le_pow₀ (by norm_num)

theorem isWithin_refl (v : ℚ) : IsWithin 0 v v := by simp [IsWithin]

theorem IsWithin.mono (h : IsWithin m x v) (le : m ≤ n) : IsWithin n x v := by
  refine h.trans ?_
  gcongr
  norm_num

theorem IsWithin.trans (h : IsWithin m x y) (h' : IsWithin n y v) : IsWithin (m + n) x v := by
  have size := h'.abs_le
  have grown := one_le_growth m
  have split := abs_sub_le x y v
  unfold IsWithin at *
  rw [pow_add]
  nlinarith [abs_nonneg v, mul_le_mul_of_nonneg_left size (sub_nonneg.mpr grown)]

theorem IsWithin.mul (hx : IsWithin m x v) (hy : IsWithin n y w) : IsWithin (m + n) (x * y) (v * w) := by
  have size := hy.abs_le
  have grown := one_le_growth m
  have split := abs_add_le ((x - v) * y) (v * (y - w))
  have whole : (x - v) * y + v * (y - w) = x * y - v * w := by ring
  rw [whole, abs_mul, abs_mul] at split
  unfold IsWithin at *
  have first : |x - v| * |y| ≤ ((1 + 1 / 2 ^ 53) ^ m - 1) * |v| * ((1 + 1 / 2 ^ 53) ^ n * |w|) :=
    mul_le_mul hx size (abs_nonneg y) (mul_nonneg (sub_nonneg.mpr grown) (abs_nonneg v))
  have second : |v| * |y - w| ≤ |v| * (((1 + 1 / 2 ^ 53) ^ n - 1) * |w|) :=
    mul_le_mul_of_nonneg_left hy (abs_nonneg v)
  rw [abs_mul, pow_add]
  linarith

end Within

section Moderate

/-- Zero, or of a size between `2^-r` and `2^r`. -/
def IsModerate (r : ℕ) (v : ℚ) : Prop := v = 0 ∨ 1 / 2 ^ r ≤ |v| ∧ |v| ≤ 2 ^ r

variable {r s : ℕ}

theorem IsModerate.abs_le (h : IsModerate r v) : |v| ≤ 2 ^ r := by
  rcases h with rfl | ⟨-, high⟩
  · rw [abs_zero]
    positivity
  · exact high

theorem IsModerate.mono (h : IsModerate r v) (le : r ≤ s) : IsModerate s v := by
  rcases h with zero | ⟨low, high⟩
  · exact .inl zero
  · refine .inr ⟨le_trans ?_ low, high.trans (pow_le_pow_right₀ one_le_two le)⟩
    exact one_div_le_one_div_of_le (by positivity) (pow_le_pow_right₀ one_le_two le)

theorem IsModerate.mul (hv : IsModerate r v) (hw : IsModerate s w) : IsModerate (r + s) (v * w) := by
  rcases hv with rfl | ⟨lowV, highV⟩
  · exact .inl (zero_mul w)
  rcases hw with rfl | ⟨lowW, highW⟩
  · exact .inl (mul_zero v)
  right
  rw [abs_mul, pow_add, ← one_div_mul_one_div]
  constructor <;> gcongr

theorem IsWithin.isModerate (h : IsWithin n x v) (few : n ≤ 10) (hv : IsModerate r v) :
    IsModerate (r + 1) x := by
  have growth : ((1 : ℚ) + 1 / 2 ^ 53) ^ n ≤ 3 / 2 :=
    (pow_le_pow_right₀ (by norm_num) few).trans (by norm_num)
  have error : |x - v| ≤ 1 / 2 * |v| := by
    refine le_trans h ?_
    gcongr
    linarith
  rcases hv with rfl | ⟨low, high⟩
  · left
    rw [abs_zero, mul_zero, sub_zero] at error
    exact abs_nonpos_iff.mp error
  · have above := abs_sub_abs_le_abs_sub x v
    have below := abs_sub_abs_le_abs_sub v x
    rw [abs_sub_comm] at below
    have half : (1 : ℚ) / 2 ^ (r + 1) = 1 / 2 * (1 / 2 ^ r) := by rw [pow_succ]; ring
    right
    rw [half, pow_succ]
    constructor <;> linarith

namespace Binary64

theorem isWithin_gridValue (h : IsModerate 1000 v) : IsWithin 1 (gridValue v) v := by
  rcases h with rfl | ⟨low, -⟩
  · rw [gridValue_of_onGrid onGrid_zero]
    exact (isWithin_refl 0).mono (by decide)
  · rw [IsWithin, pow_one, add_sub_cancel_left, one_div_mul_eq_div]
    rcases abs_gridValue_sub_le_relative v with relative | absolute
    · exact relative
    · refine absolute.trans (le_trans ?_ (div_le_div_of_nonneg_right low (by positivity)))
      rw [div_div, ← pow_add]
      exact one_div_le_one_div_of_le (by positivity) (pow_le_pow_right₀ one_le_two (by decide))

variable {a b : Binary64}

theorem exists_round_isWithin (h : IsModerate 1000 v) :
    ∃ x, (round v).toRat? = some x ∧ IsWithin 1 x v :=
  ⟨_, toRat?_round_of_abs_le h.abs_le, isWithin_gridValue h⟩

theorem exists_mul_isWithin (ha : a.toRat? = some v) (hb : b.toRat? = some w)
    (h : IsModerate 1000 (v * w)) : ∃ x, (a.mul b).toRat? = some x ∧ IsWithin 1 x (v * w) := by
  refine ⟨gridValue (v * w), ?_, isWithin_gridValue h⟩
  simp only [mul, ha, hb]
  split_ifs with zero
  · rw [toRat?_signedZero, zero, gridValue_of_onGrid onGrid_zero]
  · exact toRat?_round_of_abs_le h.abs_le

theorem toRat?_add_eq_gridValue (ha : a.toRat? = some v) (hb : b.toRat? = some w)
    (h : |v + w| ≤ 2 ^ (1000 : ℕ)) : (a.add b).toRat? = some (gridValue (v + w)) := by
  by_cases zeros : a = .negZero ∧ b = .negZero
  · obtain ⟨rfl, rfl⟩ := zeros
    have none : v + w = 0 := by
      rw [← Option.some.inj ha, ← Option.some.inj hb, add_zero]
    rw [none, gridValue_of_onGrid onGrid_zero]
    rfl
  · rw [add_eq_round ha hb (not_and_or.mp zeros), toRat?_round_of_abs_le h]

theorem toRat?_sub_eq_gridValue (ha : a.toRat? = some v) (hb : b.toRat? = some w)
    (h : |v - w| ≤ 2 ^ (1000 : ℕ)) : (a.sub b).toRat? = some (gridValue (v - w)) := by
  rw [sub_eq_add_neg] at h ⊢
  exact toRat?_add_eq_gridValue ha (toRat?_neg hb) h

end Binary64

end Moderate

section Range

namespace Binary64

theorem gridValue_eq_zero_of_tiny (h : |v| < 1 / 2 ^ (1075 : ℕ)) : gridValue v = 0 := by
  have place : 1 / 2 ^ (1074 : ℕ) ≤ lastPlace v :=
    div_le_div_of_nonneg_right (one_le_pow₀ one_le_two) (two_pow_pos 1074).le
  have near : |v / lastPlace v - (0 : ℤ)| < 1 / 2 := by
    rw [Int.cast_zero, sub_zero, abs_div, abs_of_pos (lastPlace_pos v), div_lt_iff₀ (lastPlace_pos v)]
    have half : (1 : ℚ) / 2 ^ (1075 : ℕ) = 1 / 2 * (1 / 2 ^ (1074 : ℕ)) := by
      rw [one_div_mul_one_div, ← pow_succ']
    rw [half] at h
    generalize (1 : ℚ) / 2 ^ (1074 : ℕ) = t at h place
    linarith
  rw [gridValue_eq, Decimal.nearestEven_of_near near, Int.cast_zero, zero_mul]

theorem le_gridValue (h : 2 ^ (1024 : ℕ) ≤ v) : 2 ^ (1024 : ℕ) ≤ gridValue v := by
  have border : HasSteps (2 ^ (1024 : ℕ)) := ⟨1, 1024 + 1074, by norm_num, by rw [pow_add, Int.cast_one, one_mul]⟩
  have near := abs_gridValue_sub_le border v
  rw [abs_of_nonpos (sub_nonpos.mpr h)] at near
  have below := (abs_le.mp near).1
  generalize (2 : ℚ) ^ (1024 : ℕ) = t at *
  linarith

theorem round_eq_inf (h : 2 ^ (1024 : ℕ) ≤ |v|) : round v = .inf (v < 0) := by
  have far : 2 ^ (1024 : ℕ) ≤ |gridValue v| := by
    rcases le_total 0 v with positive | negative
    · rw [abs_of_nonneg positive] at h
      exact (le_gridValue h).trans (le_abs_self _)
    · rw [abs_of_nonpos negative] at h
      have kept := le_gridValue h
      rw [gridValue_neg] at kept
      exact kept.trans (neg_le_abs _)
  have nonzero : gridValue v ≠ 0 := by
    intro zero
    rw [zero, abs_zero] at far
    exact far.not_gt (two_pow_pos 1024)
  rw [← ratAbs_eq_abs] at far
  rw [round, if_neg fun zero => nonzero zero.1, dif_neg far.not_gt]

end Binary64

namespace Decimal

variable {d : Decimal}

/-- The size of a decimal lies between the powers of ten that its last digit count tells. -/
theorem abs_toRat_bounds (h : d.digits ≠ 0) :
    (10 : ℚ) ^ (d.exponent + digitCount d.digits - 1) ≤ |d.toRat| ∧
      |d.toRat| < 10 ^ (d.exponent + digitCount d.digits) := by
  have size : |d.toRat| = d.digits * (10 : ℚ) ^ d.exponent := by
    rw [toRat]
    split_ifs
    · rw [abs_neg, abs_of_nonneg (by positivity)]
    · rw [abs_of_nonneg (by positivity)]
  have count : 1 ≤ digitCount d.digits := by
    have : ¬ digitCount d.digits ≤ 0 := by rw [digitCount_le_iff]; omega
    omega
  have split : d.exponent + digitCount d.digits - 1 = ((digitCount d.digits - 1 : ℕ) : ℤ) + d.exponent := by
    omega
  rw [size]
  constructor
  · rw [split, zpow_add₀ (by norm_num), zpow_natCast]
    gcongr
    exact_mod_cast ten_pow_le_digits h
  · rw [add_comm, zpow_add₀ (by norm_num), zpow_natCast]
    gcongr
    exact_mod_cast (digitCount_le_iff d.digits _).mp le_rfl

theorem decide_toRat_neg (h : d.digits ≠ 0) : decide (d.toRat < 0) = d.negative := by
  have positive : (0 : ℚ) < d.digits * 10 ^ d.exponent :=
    mul_pos (by exact_mod_cast Nat.pos_of_ne_zero h) (by positivity)
  rw [toRat]
  cases d.negative with
  | true => simpa using positive
  | false => simpa using positive.le

/-- A decimal is read as the nearest double, however large or small it is. -/
theorem unsignedZero_toBinary64 (d : Decimal) :
    d.toBinary64.unsignedZero = (Binary64.round d.toRat).unsignedZero := by
  by_cases none : d.digits = 0
  · have zero : d.toRat = 0 := by simp [toRat, none]
    rw [toBinary64, if_pos none, Binary64.unsignedZero_eq (Binary64.toRat?_signedZero _), zero,
      Binary64.unsignedZero_eq (Binary64.toRat?_round onGrid_zero)]
  obtain ⟨low, high⟩ := abs_toRat_bounds none
  rw [toBinary64, if_neg none]
  split_ifs with large small
  · have far : (10 : ℚ) ^ (400 : ℤ) ≤ |d.toRat| :=
      (zpow_le_zpow_right₀ (by norm_num) (by omega)).trans low
    rw [Binary64.round_eq_inf (two_pow_lt_ten_pow.le.trans far), decide_toRat_neg none]
  · have tiny : |d.toRat| < (10 : ℚ) ^ (-400 : ℤ) :=
      high.trans_le (zpow_le_zpow_right₀ (by norm_num) (by omega))
    have limit : (10 : ℚ) ^ (-400 : ℤ) ≤ 1 / 2 ^ (1075 : ℕ) := by
      have powers : (2 : ℚ) ^ (1075 : ℕ) ≤ 10 ^ (400 : ℕ) :=
        calc (2 : ℚ) ^ (1075 : ℕ) ≤ 2 ^ (3 * 400) := pow_le_pow_right₀ one_le_two (by decide)
          _ = (2 ^ 3) ^ (400 : ℕ) := pow_mul 2 3 400
          _ ≤ 10 ^ (400 : ℕ) := pow_le_pow_left₀ (by norm_num) (by norm_num) 400
      rw [zpow_neg, inv_eq_one_div]
      exact one_div_le_one_div_of_le (Binary64.two_pow_pos _) (mod_cast powers)
    have vanished := Binary64.gridValue_eq_zero_of_tiny (tiny.trans_le limit)
    have value : (Binary64.round d.toRat).toRat? = some 0 := by
      rw [Binary64.toRat?_round_of_lt, vanished]
      rw [vanished, abs_zero]
      exact Binary64.two_pow_pos 1024
    rw [Binary64.unsignedZero_eq (Binary64.toRat?_signedZero _), Binary64.unsignedZero_eq value]
  · rfl

end Decimal

end Range

end FunctionStudy
