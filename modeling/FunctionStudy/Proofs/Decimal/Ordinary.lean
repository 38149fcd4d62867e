import FunctionStudy.Proofs.Binary64.RelativeError

/-! Doubles of ordinary size: zero, or not too far from 1, up and down. Products, quotients and what
plain texts say stay finite. -/

namespace FunctionStudy

open Decimal (exact writtenSize)

variable {x y : Binary64} {v w : ℚ} {r s : ℕ}

section Written

/-- The number that the plain text writes. -/
def writtenValue (v : ℚ) : ℚ := if v < 0 then -writtenSize v else writtenSize v

theorem exact_eq_writtenValue (hx : x.toRat? = some v) : exact x = .ok (writtenValue v) := by
  obtain ⟨n, text, value⟩ := Decimal.exists_numeral_writtenSize hx
  rw [Decimal.exact_eq text, Numeral.toRat_decimal, value, writtenValue]
  simp only [decide_eq_true_eq]

theorem writtenValue_intCast (z : ℤ) : writtenValue (z : ℚ) = z := by
  rw [writtenValue, Decimal.writtenSize_intCast]
  split_ifs with negative
  · rw [abs_of_neg negative, neg_neg]
  · exact abs_of_nonneg (not_lt.mp negative)

theorem writtenSize_nonneg (h : OnGrid v) : 0 ≤ writtenSize v := by
  by_cases zero : writtenSize v = 0
  · exact zero.ge
  · exact le_trans (by positivity) (writtenSize_bounds h zero).1

theorem abs_writtenValue (h : OnGrid v) : |writtenValue v| = writtenSize v := by
  rw [writtenValue]
  split_ifs
  · rw [abs_neg, abs_of_nonneg (writtenSize_nonneg h)]
  · exact abs_of_nonneg (writtenSize_nonneg h)

theorem writtenSize_le (h : OnGrid v) : writtenSize v ≤ 2 * |v| := by
  rw [writtenSize]
  split_ifs with whole tiny
  · linarith [abs_nonneg v]
  · have near := Decimal.abs_fixedUnits_sub_le (abs_nonneg v)
    have same : Decimal.fixedUnits 20 |v| = Decimal.fixedUnits 20 v := by
      rw [Decimal.fixedUnits, Decimal.fixedUnits, ratAbs_eq_abs, ratAbs_eq_abs, abs_abs]
    rw [same] at near
    have above := (abs_le.mp near).2
    rcases Nat.eq_zero_or_pos (Decimal.fixedUnits 20 v) with none | some
    · rw [none, Nat.cast_zero, zero_div]
      positivity
    · have one : (1 : ℚ) / 10 ^ 20 ≤ Decimal.fixedUnits 20 v / 10 ^ 20 := by
        gcongr
        exact_mod_cast some
      norm_num at one above ⊢
      linarith
  · obtain ⟨-, -, upper⟩ := Decimal.shortest_spec (abs_pos_of_den_ne_one whole) (Decimal.onGrid_abs h)
    rwa [ratAbs_eq_abs] at upper ⊢

theorem writtenSize_isModerate (h : OnGrid v) (size : |v| ≤ 2 ^ r) (low : 67 ≤ r) :
    IsModerate (r + 1) (writtenSize v) := by
  by_cases zero : writtenSize v = 0
  · exact .inl zero
  right
  rw [abs_of_nonneg (writtenSize_nonneg h)]
  constructor
  · refine le_trans ?_ (writtenSize_bounds h zero).1
    have far : (1 : ℚ) / 2 ^ (r + 1) ≤ 1 / 2 ^ 68 :=
      one_div_le_one_div_of_le (by positivity) (pow_le_pow_right₀ one_le_two (by omega))
    exact far.trans (by norm_num)
  · rw [pow_succ']
    exact (writtenSize_le h).trans (by gcongr)

theorem settledSize_isModerate (h : OnGrid v) (size : |v| ≤ 2 ^ r) (low : 67 ≤ r) (high : r ≤ 900) :
    IsModerate (r + 2) (settledSize v) :=
  (Binary64.isWithin_gridValue ((writtenSize_isModerate h size low).mono (by omega))).isModerate
    (by decide) (writtenSize_isModerate h size low)

end Written

namespace Binary64

/-- Finite, and zero or between `2^-r` and `2^r` in size. -/
def IsOrdinary (r : ℕ) (x : Binary64) : Prop := ∃ v, x.toRat? = some v ∧ IsModerate r v

theorem isOrdinary_zero (r : ℕ) : zero.IsOrdinary r := ⟨0, rfl, .inl rfl⟩

theorem isModerate_one (r : ℕ) : IsModerate r 1 := by
  refine .inr ?_
  rw [abs_one]
  exact ⟨(div_le_one (by positivity)).mpr (one_le_pow₀ one_le_two), one_le_pow₀ one_le_two⟩

namespace IsOrdinary

theorem isFinite (h : x.IsOrdinary r) : x.isFinite = true := by
  obtain ⟨v, hv, -⟩ := h
  rw [Binary64.isFinite, hv, Option.isSome_some]

theorem mono (h : x.IsOrdinary r) (le : r ≤ s) : x.IsOrdinary s := by
  obtain ⟨v, hv, moderate⟩ := h
  exact ⟨v, hv, moderate.mono le⟩

theorem of_toRat? (h : x.IsOrdinary r) (same : y.toRat? = x.toRat?) : y.IsOrdinary r := by
  rwa [IsOrdinary, same]

theorem mul (hx : x.IsOrdinary r) (hy : y.IsOrdinary s) (small : r + s ≤ 1000) :
    (x.mul y).IsOrdinary (r + s + 1) := by
  obtain ⟨v, hv, moderateV⟩ := hx
  obtain ⟨w, hw, moderateW⟩ := hy
  have product := moderateV.mul moderateW
  obtain ⟨u, hu, near⟩ := exists_mul_isWithin hv hw (product.mono small)
  exact ⟨u, hu, near.isModerate (by decide) product⟩

end IsOrdinary

/-- Finite and at most `2^r` in size. -/
def IsBounded (r : ℕ) (x : Binary64) : Prop := ∃ v, x.toRat? = some v ∧ |v| ≤ 2 ^ r

theorem IsOrdinary.isBounded (h : x.IsOrdinary r) : x.IsBounded r := by
  obtain ⟨v, hv, moderate⟩ := h
  exact ⟨v, hv, moderate.abs_le⟩

theorem IsBounded.mono (h : x.IsBounded r) (le : r ≤ s) : x.IsBounded s := by
  obtain ⟨v, hv, size⟩ := h
  exact ⟨v, hv, size.trans (pow_le_pow_right₀ one_le_two le)⟩

theorem IsBounded.isFinite (h : x.IsBounded r) : x.isFinite = true := by
  obtain ⟨v, hv, -⟩ := h
  rw [Binary64.isFinite, hv, Option.isSome_some]

/-- A bound from above is enough for what the text says. -/
theorem IsBounded.isOrdinary_reread (h : x.IsBounded r) (low : 67 ≤ r) (high : r ≤ 900) :
    x.reread.IsOrdinary (r + 2) := by
  obtain ⟨v, hv, size⟩ := h
  have settled := settledSize_isModerate (onGrid_of_toRat? hv) size low high
  refine ⟨_, toRat?_reread hv, ?_⟩
  split_ifs
  · rwa [IsModerate, neg_eq_zero, abs_neg]
  · exact settled

end Binary64

end FunctionStudy
