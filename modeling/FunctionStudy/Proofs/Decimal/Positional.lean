import FunctionStudy.Proofs.Decimal.Settled

/-! The positional range. From the fourth place on a double is written with all the digits that tell
it from the others, and its text is read as the same double. -/

namespace FunctionStudy

namespace Decimal

variable {v : ℚ} {x : Binary64} {step : ℤ} {d : Decimal}

theorem neg_le_leadingExponent {k : ℕ} (h : 1 / 10 ^ k ≤ v) : -(k : ℤ) ≤ leadingExponent v := by
  have unit : (0 : ℚ) < 10 ^ k := by positivity
  have positive : 0 < v := lt_of_lt_of_le (by positivity) h
  unfold leadingExponent
  split_ifs with one
  · have floor : 1 ≤ v.floor := Rat.le_floor_iff.mpr (by exact_mod_cast one)
    have count : ¬ digitCount v.floor.toNat ≤ 0 := by
      rw [digitCount_le_iff]
      omega
    omega
  · have inverse : 1 / v ≤ ((10 ^ k : ℕ) : ℤ) := by
      rw [div_le_iff₀ positive]
      rw [div_le_iff₀ unit, mul_comm] at h
      exact_mod_cast h
    have ceil : (1 / v).ceil ≤ ((10 ^ k : ℕ) : ℤ) := Rat.ceil_le_iff.mpr inverse
    have above : 0 < 10 ^ k := Nat.pow_pos (by decide)
    have count : digitCount ((1 / v).ceil.toNat - 1) ≤ k := by
      rw [digitCount_le_iff]
      omega
    omega

theorem ten_zpow_le_floor {e : ℤ} (below : (10 : ℚ) ^ e ≤ v) (fine : step ≤ e) :
    (10 : ℚ) ^ e ≤ (v / 10 ^ step).floor.toNat * 10 ^ step := by
  have unit : (0 : ℚ) < 10 ^ step := by positivity
  obtain ⟨n, hn⟩ := Int.eq_ofNat_of_zero_le (sub_nonneg.mpr fine)
  have split : (10 : ℚ) ^ e = ((10 ^ n : ℕ) : ℤ) * 10 ^ step := by
    rw [Int.cast_natCast, Nat.cast_pow, Nat.cast_ofNat, ← zpow_natCast, ← zpow_add₀ (by norm_num)]
    congr 1
    omega
  have floor : ((10 ^ n : ℕ) : ℤ) ≤ (v / 10 ^ step).floor := by
    rw [Rat.le_floor_iff, le_div_iff₀ unit, ← split]
    exact below
  have digits : 10 ^ n ≤ (v / 10 ^ step).floor.toNat := by omega
  rw [split, Int.cast_natCast]
  gcongr

/-- A neighbour is no smaller than a power of ten on its grid that the number reaches. -/
theorem ten_zpow_le_neighbour? {e : ℤ} (below : (10 : ℚ) ^ e ≤ v) (fine : step ≤ e)
    (h : neighbour? v x step = some d) : (10 : ℚ) ^ e ≤ d.toRat := by
  have floor := ten_zpow_le_floor below fine
  have next : (v / (10 : ℚ) ^ step).floor.toNat * (10 : ℚ) ^ step ≤
      ((v / (10 : ℚ) ^ step).floor.toNat + 1 : ℕ) * 10 ^ step := by
    gcongr
    exact Nat.le_succ _
  simp only [neighbour?] at h
  split_ifs at h <;> cases h
  · exact floor.trans next
  · exact floor
  · exact floor.trans next

theorem ten_zpow_leadingExponent_le_shortest (hv : 0 < v) :
    (10 : ℚ) ^ leadingExponent v ≤ (shortest v).toRat := by
  have lead := ten_zpow_leadingExponent_le hv
  have tried : shortest v = ((List.range 17).findSome? fun (extra : ℕ) =>
      neighbour? v (Binary64.round v) (leadingExponent v - (extra : ℤ))).getD
        ⟨false, (v / (10 : ℚ) ^ (leadingExponent v - 16)).floor.toNat, leadingExponent v - 16⟩ := rfl
  rw [tried]
  cases found : (List.range 17).findSome? fun (extra : ℕ) =>
      neighbour? v (Binary64.round v) (leadingExponent v - (extra : ℤ)) with
  | some d =>
    obtain ⟨extra, -, h⟩ := List.exists_of_findSome?_eq_some found
    exact ten_zpow_le_neighbour? lead (by omega) h
  | none => exact ten_zpow_le_floor lead (by omega)

theorem toRat_lt_ten_zpow (hs : d.negative = false) : d.toRat < 10 ^ ((significant d).2 + 1) := by
  have digits : d.digits < 10 ^ (Nat.toDigits 10 d.digits).length := by
    rw [← Nat.length_toDigits_le_iff (by decide) Nat.length_toDigits_pos]
  have exponent : (significant d).2 + 1 = ((Nat.toDigits 10 d.digits).length : ℕ) + d.exponent := by
    simp only [significant]
    omega
  rw [exponent, zpow_add₀ (by norm_num), zpow_natCast, toRat, hs, if_neg Bool.false_ne_true]
  gcongr
  exact_mod_cast digits

end Decimal

section Reading

open Decimal

variable {v : ℚ}

/-- From the fourth place on a number is read as what it is. -/
theorem settledSize_of_le (grid : OnGrid v) (size : 1 / 10 ^ 4 ≤ |v|) : settledSize v = |v| := by
  by_cases whole : v.den = 1
  · exact settledSize_eq_abs grid (.inl whole)
  · refine settledSize_eq_abs grid (.inr fun tiny => ?_)
    rw [← ratAbs_eq_abs] at size
    have positive := abs_pos_of_den_ne_one whole
    obtain ⟨sign, -, -⟩ := shortest_spec positive (onGrid_abs grid)
    have start : (10 : ℚ) ^ leadingExponent v.abs < 10 ^ ((significant (shortest v.abs)).2 + 1) :=
      (ten_zpow_leadingExponent_le_shortest positive).trans_lt (toRat_lt_ten_zpow sign)
    rw [zpow_lt_zpow_iff_right₀ (by norm_num)] at start
    have lead := neg_le_leadingExponent size
    omega

theorem le_abs_gridValue (size : 1 / 10 ^ 4 ≤ |v|) : 1 / 10 ^ 4 ≤ |Binary64.gridValue v| := by
  have start : (1 / 10 ^ 4 : ℚ) ≤ Binary64.gridValue (1 / 10 ^ 4) := by decide +kernel
  rw [← Binary64.gridValue_abs]
  exact start.trans (Binary64.gridValue_mono size)

/-- The double nearest to zero, or to a number from the fourth place on, is read as it was written. -/
theorem Binary64.unsignedZero_reread_round (finite : (round v).isFinite = true)
    (size : v = 0 ∨ 1 / 10 ^ 4 ≤ |v|) : (round v).reread.unsignedZero = round v := by
  rcases size with rfl | size
  · decide +kernel
  · have value := toRat?_round_of_isFinite finite
    have grid := onGrid_of_toRat? value
    have large := le_abs_gridValue size
    have nonzero : gridValue v ≠ 0 := by
      intro zero
      rw [zero, abs_zero] at large
      norm_num at large
    have read := toRat?_reread value
    rw [settledSize_of_le grid large] at read
    have sign : (if gridValue v < 0 then -|gridValue v| else |gridValue v|) = gridValue v := by
      split_ifs with negative
      · rw [abs_of_neg negative, neg_neg]
      · rw [abs_of_nonneg (not_lt.mp negative)]
    rw [sign] at read
    have sign : gridValue v = 0 → 0 ≤ gridValue v := fun zero => zero.ge
    rw [unsignedZero_eq read, round_eq_of_gridValue grid (gridValue_of_onGrid grid) sign,
      round_eq_of_gridValue grid rfl fun zero => absurd zero nonzero]

end Reading

end FunctionStudy
