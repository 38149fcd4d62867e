import FunctionStudy.Proofs.Binary64.Nearest
import FunctionStudy.Proofs.Decimal.Reread

/-! Numbers settle once they are read. Seventeen digits tell every double from the others; a tiny
one is cut to twenty places, and what has been read from these is read again as the same. -/

namespace FunctionStudy

open Binary64 (gridValue)

namespace Decimal

variable {v w : ℚ}

section Shortest

theorem neighbour?_isSome_of {x : Binary64} {step : ℤ}
    (h : Binary64.round ((v / (10 : ℚ) ^ step).floor.toNat * (10 : ℚ) ^ step) = x ∨
      Binary64.round (((v / (10 : ℚ) ^ step).floor.toNat + 1 : ℕ) * (10 : ℚ) ^ step) = x) :
    (neighbour? v x step).isSome = true := by
  simp only [neighbour?]
  split_ifs with lower both upper
  · rfl
  · rfl
  · rfl
  · rcases h with h | h
    · exact absurd (decide_eq_true h) lower
    · exact absurd (decide_eq_true h) upper

/-- On a fine grid the nearer of the two neighbours is read back. -/
theorem neighbour?_isSome {step : ℤ} (hv : 0 < v) (grid : OnGrid v)
    (fine : (2 ^ 53 + 1) * (10 : ℚ) ^ step < v) :
    (neighbour? v (Binary64.round v) step).isSome = true := by
  have unit : (0 : ℚ) < 10 ^ step := by positivity
  have nonneg : 0 ≤ (v / 10 ^ step).floor :=
    Rat.le_floor_iff.mpr (by exact_mod_cast div_nonneg hv.le unit.le)
  have floor : (((v / 10 ^ step).floor.toNat : ℕ) : ℚ) = ((v / 10 ^ step).floor : ℚ) := by
    exact_mod_cast Int.toNat_of_nonneg nonneg
  have lower : ((v / 10 ^ step).floor.toNat : ℕ) * (10 : ℚ) ^ step ≤ v := by
    rw [floor, ← le_div_iff₀ unit]
    exact Rat.floor_le _
  have upper : v < (((v / 10 ^ step).floor.toNat + 1 : ℕ) : ℚ) * (10 : ℚ) ^ step := by
    rw [Nat.cast_add_one, floor, ← div_lt_iff₀ unit]
    exact_mod_cast Rat.lt_floor_add_one (v / 10 ^ step)
  have near : ∀ u : ℚ, |u - v| ≤ 10 ^ step / 2 → Binary64.round u = Binary64.round v := by
    intro u hu
    rw [Binary64.round_of_onGrid grid]
    refine Binary64.round_eq_of_near grid ?_
    rw [abs_of_pos hv]
    linarith
  apply neighbour?_isSome_of
  generalize (v / 10 ^ step).floor.toNat = n at lower upper ⊢
  rw [Nat.cast_add_one, add_mul, one_mul] at upper ⊢
  rcases le_total (v - n * 10 ^ step) (10 ^ step / 2) with small | large
  · refine .inl (near _ ?_)
    rw [abs_le]
    constructor <;> linarith
  · refine .inr (near _ ?_)
    rw [abs_le]
    constructor <;> linarith

/-- Seventeen digits are enough. -/
theorem gridValue_shortest (hv : 0 < v) (grid : OnGrid v) : gridValue (shortest v).toRat = v := by
  have lead := ten_zpow_leadingExponent_le hv
  have fine : (2 ^ 53 + 1) * (10 : ℚ) ^ (leadingExponent v - (16 : ℕ)) < v := by
    rw [zpow_sub₀ (by norm_num), zpow_natCast]
    have positive : (0 : ℚ) < 10 ^ leadingExponent v := by positivity
    linarith
  have last := neighbour?_isSome hv grid fine
  have tried : shortest v = ((List.range 17).findSome? fun (extra : ℕ) =>
      neighbour? v (Binary64.round v) (leadingExponent v - (extra : ℤ))).getD
        ⟨false, (v / (10 : ℚ) ^ (leadingExponent v - 16)).floor.toNat, leadingExponent v - 16⟩ := rfl
  cases found : (List.range 17).findSome? fun (extra : ℕ) =>
      neighbour? v (Binary64.round v) (leadingExponent v - (extra : ℤ)) with
  | none =>
    rw [List.findSome?_eq_none_iff.mp found 16 (by decide)] at last
    cases last
  | some d =>
    obtain ⟨extra, -, h⟩ := List.exists_of_findSome?_eq_some found
    rw [tried, found, Option.getD_some]
    refine Binary64.gridValue_of_round grid ?_
    rw [(neighbour?_spec hv h).2.1, Binary64.round_of_onGrid grid]

end Shortest

section Places

theorem exists_multiple_of_lt (h : HasSteps v) (above : 1 / 2 ^ 14 < v) : ∃ n : ℤ, v = n / 2 ^ 66 := by
  obtain ⟨m, k, hm, steps⟩ := h
  have scale : (0 : ℚ) < 2 ^ (1008 : ℕ) := Binary64.two_pow_pos _
  have split : v * 2 ^ 66 * 2 ^ (1008 : ℕ) = m * 2 ^ k := by
    rw [mul_assoc, ← pow_add]
    exact steps
  have least : 1008 ≤ k := by
    by_contra small
    have power : (2 : ℚ) * 2 ^ k ≤ 2 ^ (1008 : ℕ) := by
      rw [← pow_succ']
      exact pow_le_pow_right₀ one_le_two (by omega)
    have size : v * 2 ^ 66 * 2 ^ (1008 : ℕ) ≤ 2 ^ 52 * 2 ^ (1008 : ℕ) := by
      calc v * 2 ^ 66 * 2 ^ (1008 : ℕ) = m * 2 ^ k := split
        _ ≤ 2 ^ 53 * 2 ^ k := by gcongr; exact (le_abs_self _).trans hm
        _ = 2 ^ 52 * (2 * 2 ^ k) := by ring
        _ ≤ 2 ^ 52 * 2 ^ (1008 : ℕ) := by gcongr
    have bound := le_of_mul_le_mul_right size scale
    linarith only [bound, above]
  obtain ⟨j, rfl⟩ := Nat.exists_eq_add_of_le least
  refine ⟨m * 2 ^ j, ?_⟩
  rw [eq_div_iff (by positivity)]
  refine mul_right_cancel₀ scale.ne' ?_
  rw [split, pow_add]
  push_cast
  rw [mul_assoc, mul_comm (2 ^ j)]

/-- The twentieth place tells the doubles above `2^-14` from each other. -/
theorem eq_of_near (hv : HasSteps v) (hw : HasSteps w) (above : 1 / 2 ^ 14 < v)
    (near : |w - v| ≤ 1 / 10 ^ 20) : w = v := by
  obtain ⟨n, rfl⟩ := exists_multiple_of_lt hv above
  obtain ⟨lower, upper⟩ := abs_le.mp near
  have first : ((2 ^ 52 : ℤ) : ℚ) < n := by
    rw [lt_div_iff₀ (by positivity)] at above
    push_cast
    linarith
  have next : (2 : ℚ) ^ 52 + 1 ≤ n := by exact_mod_cast Int.add_one_le_iff.mpr (Int.cast_lt.mp first)
  have inside : 1 / 2 ^ 14 < w := by
    have least : ((2 : ℚ) ^ 52 + 1) / 2 ^ 66 ≤ n / 2 ^ 66 := by gcongr
    linarith
  obtain ⟨m, rfl⟩ := exists_multiple_of_lt hw inside
  have close : |((m - n : ℤ) : ℚ)| < 1 := by
    rw [← sub_div, abs_div, abs_of_pos (by positivity : (0 : ℚ) < 2 ^ 66), div_le_iff₀ (by positivity)]
      at near
    push_cast
    linarith
  have same : m = n := sub_eq_zero.mp (Int.abs_lt_one_iff.mp (by exact_mod_cast close))
  rw [same]

/-- Below `2^-14` a double is nearer than half of the twentieth place. -/
theorem abs_gridValue_sub_le_places (nonneg : 0 ≤ w) (below : w ≤ 1 / 2 ^ 14) :
    |gridValue w - w| ≤ 1 / 2 ^ 68 := by
  have scale : (0 : ℚ) < 2 ^ 67 := by positivity
  have lower : 0 ≤ nearestEven (w * 2 ^ 67) := le_nearestEven (by push_cast; positivity)
  have upper : nearestEven (w * 2 ^ 67) ≤ 2 ^ 53 :=
    nearestEven_le (by push_cast; linarith)
  have steps : HasSteps (nearestEven (w * 2 ^ 67) / 2 ^ 67) := by
    refine ⟨nearestEven (w * 2 ^ 67), 1007, ?_, ?_⟩
    · rw [abs_of_nonneg (by exact_mod_cast lower)]
      exact_mod_cast upper
    · have whole : (2 : ℚ) ^ (1074 : ℕ) = 2 ^ 67 * 2 ^ (1007 : ℕ) := by rw [← pow_add]
      rw [whole, ← mul_assoc, div_mul_cancel₀ _ scale.ne']
  refine (Binary64.abs_gridValue_sub_le steps w).trans ?_
  have error := abs_nearestEven_sub_le (w * 2 ^ 67)
  have scaled : (nearestEven (w * 2 ^ 67) / 2 ^ 67 - w) * 2 ^ 67 = nearestEven (w * 2 ^ 67) - w * 2 ^ 67 := by
    rw [sub_mul, div_mul_cancel₀ _ scale.ne']
  rw [← scaled, abs_mul, abs_of_pos scale] at error
  linarith

theorem nearestEven_of_near {n : ℤ} (h : |v - n| < 1 / 2) : nearestEven v = n := by
  have error := abs_nearestEven_sub_le v
  have split := abs_sub_le (nearestEven v : ℚ) v n
  have close : |((nearestEven v - n : ℤ) : ℚ)| < 1 := by
    push_cast
    linarith
  exact sub_eq_zero.mp (Int.abs_lt_one_iff.mp (by exact_mod_cast close))

theorem fixedUnits_eq (nonneg : 0 ≤ v) : (fixedUnits 20 v : ℚ) = nearestEven (v * 10 ^ 20) := by
  have kept : (0 : ℤ) ≤ nearestEven (v * 10 ^ 20) := le_nearestEven (by push_cast; positivity)
  rw [fixedUnits, ratAbs_eq_abs, abs_of_nonneg nonneg]
  exact_mod_cast Int.toNat_of_nonneg kept

theorem abs_fixedUnits_sub_le (nonneg : 0 ≤ v) : |fixedUnits 20 v / 10 ^ 20 - v| ≤ 1 / (2 * 10 ^ 20) := by
  have error := abs_nearestEven_sub_le (v * 10 ^ 20)
  have scale : (0 : ℚ) < 10 ^ 20 := by positivity
  have scaled : (fixedUnits 20 v / 10 ^ 20 - v) * 10 ^ 20 = nearestEven (v * 10 ^ 20) - v * 10 ^ 20 := by
    rw [fixedUnits_eq nonneg, sub_mul, div_mul_cancel₀ _ scale.ne']
  rw [← scaled, abs_mul, abs_of_pos scale] at error
  linarith

theorem fixedUnits_of_near {n : ℕ} (nonneg : 0 ≤ v) (near : |v - n / 10 ^ 20| < 1 / (2 * 10 ^ 20)) :
    fixedUnits 20 v = n := by
  have scale : (0 : ℚ) < 10 ^ 20 := by positivity
  have scaled : (v - n / 10 ^ 20) * 10 ^ 20 = v * 10 ^ 20 - (n : ℤ) := by
    rw [sub_mul, div_mul_cancel₀ _ scale.ne', Int.cast_natCast]
  have close : |v * 10 ^ 20 - (n : ℤ)| < 1 / 2 := by
    rw [← scaled, abs_mul, abs_of_pos scale]
    linarith
  have units := fixedUnits_eq nonneg
  rw [nearestEven_of_near close] at units
  exact_mod_cast units

/-- What is read from twenty places is read again as the same. -/
theorem gridValue_places (n : ℕ) :
    gridValue (fixedUnits 20 (gridValue (n / 10 ^ 20)) / 10 ^ 20) = gridValue (n / 10 ^ 20) := by
  have start : (0 : ℚ) ≤ n / 10 ^ 20 := by positivity
  have nonneg := Binary64.gridValue_nonneg start
  have steps := Binary64.hasSteps_gridValue (n / 10 ^ 20 : ℚ)
  rcases le_or_gt (n / 10 ^ 20 : ℚ) (1 / 2 ^ 14) with below | above
  · have near := abs_gridValue_sub_le_places start below
    rw [fixedUnits_of_near nonneg (near.trans_lt (by norm_num))]
  · have border : HasSteps (1 / 2 ^ 14) := by
      have whole : (2 : ℚ) ^ (1074 : ℕ) = 2 ^ 14 * 2 ^ (1060 : ℕ) := by rw [← pow_add]
      refine ⟨1, 1060, by norm_num, ?_⟩
      rw [whole, ← mul_assoc, one_div_mul_cancel (by positivity), Int.cast_one]
    have nearest := Binary64.abs_gridValue_sub_le border (n / 10 ^ 20)
    have read := abs_fixedUnits_sub_le nonneg
    generalize gridValue (n / 10 ^ 20) = v at *
    have least : 1 / 2 ^ 14 ≤ v := by
      rw [abs_of_neg (sub_neg.mpr above)] at nearest
      linarith [(abs_le.mp nearest).1]
    rcases least.lt_or_eq with inside | rfl
    · refine eq_of_near steps (Binary64.hasSteps_gridValue _) inside ?_
      have again := Binary64.abs_gridValue_sub_le steps (fixedUnits 20 v / 10 ^ 20)
      have split := abs_sub_le (gridValue (fixedUnits 20 v / 10 ^ 20)) (fixedUnits 20 v / 10 ^ 20) v
      rw [abs_sub_comm v] at again
      linarith
    · -- The border itself has fourteen places.
      have exact : ((6103515625000000 : ℕ) : ℚ) / 10 ^ 20 = 1 / 2 ^ 14 := by norm_num
      rw [fixedUnits_of_near (n := 6103515625000000) nonneg (by rw [exact]; norm_num), exact,
        Binary64.gridValue_of_hasSteps border]

end Places

section Range

theorem ten_pow_le_digits {n : ℕ} (h : n ≠ 0) : 10 ^ (digitCount n - 1) ≤ n := by
  have more : ¬ digitCount n ≤ digitCount n - 1 := by
    have : ¬ digitCount n ≤ 0 := by rw [digitCount_le_iff]; omega
    omega
  rwa [digitCount_le_iff, not_lt] at more

theorem toBinary64_eq_round {d : Decimal} (low : (10 : ℚ) ^ (-400 : ℤ) ≤ |d.toRat|)
    (high : |d.toRat| < (10 : ℚ) ^ (400 : ℤ)) : d.toBinary64 = .round d.toRat := by
  have size : |d.toRat| = d.digits * (10 : ℚ) ^ d.exponent := by
    rw [toRat]
    split_ifs
    · rw [abs_neg, abs_of_nonneg (by positivity)]
    · rw [abs_of_nonneg (by positivity)]
  have nonzero : d.digits ≠ 0 := by
    intro zero
    rw [size, zero, Nat.cast_zero, zero_mul] at low
    exact absurd low (not_le.mpr (by positivity))
  have least : (10 : ℚ) ^ (d.exponent + digitCount d.digits - 1) < 10 ^ (400 : ℤ) := by
    refine lt_of_le_of_lt ?_ high
    have count : 1 ≤ digitCount d.digits := by
      have : ¬ digitCount d.digits ≤ 0 := by rw [digitCount_le_iff]; omega
      omega
    have split : d.exponent + digitCount d.digits - 1 = ((digitCount d.digits - 1 : ℕ) : ℤ) + d.exponent := by
      omega
    rw [size, split, zpow_add₀ (by norm_num), zpow_natCast]
    gcongr
    exact_mod_cast ten_pow_le_digits nonzero
  have most : (10 : ℚ) ^ (-400 : ℤ) < 10 ^ (d.exponent + digitCount d.digits) := by
    refine lt_of_le_of_lt low ?_
    rw [size, add_comm, zpow_add₀ (by norm_num), zpow_natCast]
    gcongr
    exact_mod_cast (digitCount_le_iff d.digits _).mp le_rfl
  rw [zpow_lt_zpow_iff_right₀ (by norm_num)] at least most
  rw [toBinary64, if_neg nonzero, if_neg (by omega), if_neg (by omega)]

end Range

end Decimal

section Reread

open Decimal

variable {x : Binary64} {v : ℚ}

theorem two_pow_lt_ten_pow : (2 : ℚ) ^ (1024 : ℕ) < 10 ^ (400 : ℤ) := by
  have blocks : ((2 : ℚ) ^ 16) ^ 64 < (10 ^ 5) ^ 64 :=
    pow_lt_pow_left₀ (by norm_num) (by positivity) (by norm_num)
  rw [← pow_mul, ← pow_mul, ← zpow_natCast 10] at blocks
  exact blocks.trans_le (zpow_le_zpow_right₀ (by norm_num) (by norm_num))

/-- The size of the number that the plain text is read as. -/
def settledSize (v : ℚ) : ℚ := gridValue (writtenSize v)

theorem writtenSize_neg (v : ℚ) : writtenSize (-v) = writtenSize v := by
  rw [writtenSize, writtenSize, Rat.neg_den, abs_neg, Rat.abs_neg, fixedUnits, fixedUnits, Rat.abs_neg]

theorem writtenSize_abs (v : ℚ) : writtenSize |v| = writtenSize v := by
  rcases abs_choice v with e | e <;> rw [e]
  rw [writtenSize_neg]

theorem settledSize_neg (v : ℚ) : settledSize (-v) = settledSize v := by
  rw [settledSize, writtenSize_neg, ← settledSize]

theorem abs_pos_of_den_ne_one (h : v.den ≠ 1) : 0 < v.abs := by
  rw [ratAbs_eq_abs, abs_pos]
  rintro rfl
  exact h rfl

theorem writtenSize_bounds_of_den_ne_one (h : OnGrid v) (places : v.den ≠ 1) (nonzero : writtenSize v ≠ 0) :
    (10 : ℚ) ^ (-20 : ℤ) ≤ writtenSize v ∧ writtenSize v ≤ 2 ^ 53 := by
  have size := abs_le_of_den_ne_one h places
  rw [writtenSize, if_neg places] at nonzero ⊢
  split_ifs at nonzero ⊢ with tiny
  · have near := abs_fixedUnits_sub_le (abs_nonneg v)
    have same : fixedUnits 20 |v| = fixedUnits 20 v := by
      rw [fixedUnits, fixedUnits, ratAbs_eq_abs, ratAbs_eq_abs, abs_abs]
    rw [same] at near
    have one : (1 : ℚ) ≤ fixedUnits 20 v := by
      exact_mod_cast Nat.one_le_iff_ne_zero.mpr fun zero => nonzero (by rw [zero, Nat.cast_zero, zero_div])
    constructor
    · rw [zpow_neg, inv_eq_one_div, show ((20 : ℤ)) = ((20 : ℕ) : ℤ) from rfl, zpow_natCast]
      gcongr
    · linarith [(abs_le.mp near).2]
  · obtain ⟨sign, digits, upper⟩ := shortest_spec (abs_pos_of_den_ne_one places) (onGrid_abs h)
    constructor
    · refine le_trans ?_ (ten_zpow_significant_le sign digits)
      exact zpow_le_zpow_right₀ (by norm_num) (by omega)
    · rw [ratAbs_eq_abs] at upper ⊢
      linarith

theorem writtenSize_bounds (h : OnGrid v) (nonzero : writtenSize v ≠ 0) :
    (10 : ℚ) ^ (-20 : ℤ) ≤ writtenSize v ∧ writtenSize v < 2 ^ (1024 : ℕ) ∧
      settledSize v < 2 ^ (1024 : ℕ) := by
  by_cases whole : v.den = 1
  · have value : writtenSize v = |v| := by rw [writtenSize, if_pos whole]
    have small : |v| < 2 ^ (1024 : ℕ) := by
      obtain ⟨-, -, -, -, bound⟩ := h
      rwa [ratAbs_eq_abs] at bound
    have grid : HasSteps |v| := by
      rw [← ratAbs_eq_abs]
      exact (onGrid_abs h).hasSteps
    rw [settledSize, value, Binary64.gridValue_of_hasSteps grid]
    rw [value, ← Rat.coe_int_num_of_den_eq_one whole, abs_ne_zero, Int.cast_ne_zero] at nonzero
    have one : (1 : ℚ) ≤ |v| := by
      rw [← Rat.coe_int_num_of_den_eq_one whole]
      exact_mod_cast Int.one_le_abs nonzero
    exact ⟨(by norm_num : (10 : ℚ) ^ (-20 : ℤ) ≤ 1).trans one, small, small⟩
  · obtain ⟨low, high⟩ := writtenSize_bounds_of_den_ne_one h whole nonzero
    have far : (2 : ℚ) ^ 54 < 2 ^ (1024 : ℕ) := pow_lt_pow_right₀ one_lt_two (by norm_num)
    have rounded := Binary64.abs_gridValue_le (writtenSize v)
    have positive : 0 ≤ writtenSize v := le_trans (by positivity) low
    rw [abs_of_nonneg (Binary64.gridValue_nonneg positive), abs_of_nonneg positive] at rounded
    refine ⟨low, lt_of_le_of_lt ?_ far, lt_of_le_of_lt ?_ far⟩
    · linarith only [high]
    · exact rounded.trans (by linarith only [high])

theorem settledSize_nonneg (h : OnGrid v) : 0 ≤ settledSize v := by
  by_cases zero : writtenSize v = 0
  · rw [settledSize, zero]
    exact Binary64.gridValue_nonneg le_rfl
  · exact Binary64.gridValue_nonneg (le_trans (by positivity) (writtenSize_bounds h zero).1)

theorem onGrid_settledSize (h : OnGrid v) : OnGrid (settledSize v) := by
  by_cases zero : writtenSize v = 0
  · rw [settledSize, zero, Binary64.gridValue_of_onGrid onGrid_zero]
    exact onGrid_zero
  · refine Binary64.onGrid_gridValue _ ?_
    rw [ratAbs_eq_abs, ← settledSize, abs_of_nonneg (settledSize_nonneg h)]
    exact (writtenSize_bounds h zero).2.2

theorem toRat?_toBinary64_decimal (h : OnGrid v) {n : Numeral}
    (value : (n.decimal false).toRat = writtenSize v)
    (negative : Bool) : (n.decimal negative).toBinary64.toRat? =
      some (if negative then -settledSize v else settledSize v) := by
  by_cases zero : writtenSize v = 0
  · have digits : (n.decimal negative).digits = 0 := by
      rw [zero, Numeral.toRat_decimal_false, div_eq_zero_iff, Nat.cast_eq_zero] at value
      exact value.resolve_right (by positivity)
    rw [toBinary64, if_pos digits, Binary64.toRat?_signedZero, settledSize, zero,
      Binary64.gridValue_of_onGrid onGrid_zero, neg_zero, ite_self]
  · obtain ⟨low, high, range⟩ := writtenSize_bounds h zero
    have positive : 0 < writtenSize v := lt_of_lt_of_le (by positivity) low
    have signed : (n.decimal negative).toRat = if negative then -writtenSize v else writtenSize v := by
      rw [Numeral.toRat_decimal, value]
    have size : |(n.decimal negative).toRat| = writtenSize v := by
      rw [signed]
      split_ifs
      · rw [abs_neg, abs_of_pos positive]
      · rw [abs_of_pos positive]
    have inside : (10 : ℚ) ^ (-400 : ℤ) ≤ writtenSize v :=
      (zpow_le_zpow_right₀ (by norm_num) (by norm_num)).trans low
    rw [toBinary64_eq_round (by rwa [size]) (by rw [size]; exact high.trans two_pow_lt_ten_pow), signed]
    rw [settledSize] at range ⊢
    have small : |gridValue (writtenSize v)| < 2 ^ (1024 : ℕ) := by
      rwa [abs_of_nonneg (Binary64.gridValue_nonneg positive.le)]
    split_ifs
    · rw [Binary64.toRat?_round_of_lt (by rwa [Binary64.gridValue_neg, abs_neg]), Binary64.gridValue_neg]
    · rw [Binary64.toRat?_round_of_lt small]

/-- The number that a plain text is read as has the old sign. -/
theorem toRat?_reread (hx : x.toRat? = some v) :
    x.reread.toRat? = some (if v < 0 then -settledSize v else settledSize v) := by
  obtain ⟨n, text, value⟩ := exists_numeral_writtenSize hx
  rw [Binary64.reread_eq text, toRat?_toBinary64_decimal (Binary64.onGrid_of_toRat? hx) value]
  simp only [decide_eq_true_eq]

theorem Binary64.isFinite_reread (hx : x.isFinite = true) : x.reread.isFinite = true := by
  obtain ⟨v, hv⟩ := Option.isSome_iff_exists.mp hx
  rw [isFinite, toRat?_reread hv, Option.isSome_some]

theorem settledSize_eq_abs (h : OnGrid v)
    (positional : v.den = 1 ∨ ¬ (significant (shortest v.abs)).2 < -4) : settledSize v = |v| := by
  have grid := onGrid_abs h
  by_cases whole : v.den = 1
  · rw [settledSize, writtenSize, if_pos whole]
    rw [ratAbs_eq_abs] at grid
    exact Binary64.gridValue_of_onGrid grid
  · rw [settledSize, writtenSize, if_neg whole, if_neg (positional.resolve_left whole),
      gridValue_shortest (abs_pos_of_den_ne_one whole) grid, ratAbs_eq_abs]

theorem settledSize_idem (h : OnGrid v) : settledSize (settledSize v) = settledSize v := by
  have nonneg := settledSize_nonneg h
  by_cases again : (settledSize v).den = 1 ∨ ¬ (significant (shortest (settledSize v).abs)).2 < -4
  · rw [settledSize_eq_abs (onGrid_settledSize h) again, abs_of_nonneg nonneg]
  · by_cases positional : v.den = 1 ∨ ¬ (significant (shortest v.abs)).2 < -4
    · rw [settledSize_eq_abs h positional, settledSize, writtenSize_abs, ← settledSize,
        settledSize_eq_abs h positional]
    · -- Both numbers are cut to twenty places.
      obtain ⟨whole, tiny⟩ := not_or.mp positional
      obtain ⟨wholeAgain, tinyAgain⟩ := not_or.mp again
      have first : writtenSize v = fixedUnits 20 v / 10 ^ 20 := by
        rw [writtenSize, if_neg whole, if_pos (not_not.mp tiny)]
      rw [settledSize, writtenSize, if_neg wholeAgain, if_pos (not_not.mp tinyAgain), settledSize, first,
        gridValue_places]

/-- What has been read once is read again as the same number. -/
theorem Binary64.toRat?_reread_reread (hx : x.isFinite = true) :
    x.reread.reread.toRat? = x.reread.toRat? := by
  obtain ⟨v, hv⟩ := Option.isSome_iff_exists.mp hx
  have grid := onGrid_of_toRat? hv
  have nonneg := settledSize_nonneg grid
  have first := toRat?_reread hv
  rw [toRat?_reread first, first]
  split_ifs with negative below below
  · rw [settledSize_neg, settledSize_idem grid]
  · have zero : settledSize v = 0 := by linarith
    rw [settledSize_neg, settledSize_idem grid, zero, neg_zero]
  · exact absurd below nonneg.not_gt
  · rw [settledSize_idem grid]

end Reread

end FunctionStudy
