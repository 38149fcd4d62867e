import Mathlib.Algebra.Order.Field.Power
import Mathlib.Data.List.TakeWhile
import FunctionStudy.Proofs.Decimal.Numeral

/-! Plain text of doubles. Every finite double is written as a numeral after an optional minus, and
an integer as its own digits. The number read back from the text is what exact computations use. -/

namespace FunctionStudy.Decimal

theorem digitCount_le_iff (n k : ℕ) : digitCount n ≤ k ↔ n < 10 ^ k := by
  unfold digitCount
  split_ifs with hn
  · simp [hn]
  · rcases Nat.eq_zero_or_pos k with rfl | hk
    · have := Nat.length_toDigits_pos (b := 10) (n := n)
      omega
    · exact Nat.length_toDigits_le_iff (by decide) hk

theorem ten_zpow_leadingExponent_le {v : ℚ} (hv : 0 < v) :
    (10 : ℚ) ^ leadingExponent v ≤ v := by
  unfold leadingExponent
  split_ifs with h1
  · have floorPos : 1 ≤ v.floor := Rat.le_floor_iff.mpr (by exact_mod_cast h1)
    have hc : ¬ digitCount v.floor.toNat ≤ digitCount v.floor.toNat - 1 := by
      have : ¬ digitCount v.floor.toNat ≤ 0 := by rw [digitCount_le_iff]; omega
      omega
    rw [digitCount_le_iff, not_lt] at hc
    have cast : ((digitCount v.floor.toNat : ℤ) - 1) = ((digitCount v.floor.toNat - 1 : ℕ) : ℤ) := by
      have : ¬ digitCount v.floor.toNat ≤ 0 := by rw [digitCount_le_iff]; omega
      omega
    rw [cast, zpow_natCast]
    calc (10 : ℚ) ^ (digitCount v.floor.toNat - 1) ≤ (v.floor.toNat : ℚ) := by exact_mod_cast hc
      _ = ((v.floor.toNat : ℤ) : ℚ) := by rfl
      _ = (v.floor : ℚ) := by rw [Int.toNat_of_nonneg (by omega)]
      _ ≤ v := Rat.floor_le v
  · have inv : 1 / v ≤ ((1 / v).ceil : ℚ) := Rat.le_ceil
    have bound := (digitCount_le_iff ((1 / v).ceil.toNat - 1) _).mp le_rfl
    have size : ((1 / v).ceil : ℚ) ≤ 10 ^ digitCount ((1 / v).ceil.toNat - 1) := by
      have : (1 / v).ceil ≤ ((10 ^ digitCount ((1 / v).ceil.toNat - 1) : ℕ) : ℤ) := by omega
      exact_mod_cast this
    rw [zpow_neg, zpow_natCast, inv_le_comm₀ (by positivity) hv, ← one_div]
    exact inv.trans size

theorem floor_toNat_mul_le {v grid : ℚ} (hv : 0 ≤ v) (hg : 0 < grid) :
    (((v / grid).floor.toNat : ℕ) : ℚ) * grid ≤ v := by
  have nonneg : 0 ≤ (v / grid).floor := Rat.le_floor_iff.mpr (by exact_mod_cast div_nonneg hv hg.le)
  calc (((v / grid).floor.toNat : ℕ) : ℚ) * grid
      = (((v / grid).floor.toNat : ℤ) : ℚ) * grid := by rfl
    _ = ((v / grid).floor : ℚ) * grid := by rw [Int.toNat_of_nonneg nonneg]
    _ ≤ v / grid * grid := by gcongr; exact Rat.floor_le _
    _ = v := by field_simp

theorem neighbour?_spec {v : ℚ} {x : Binary64} {step : ℤ} {d : Decimal} (hv : 0 < v)
    (h : neighbour? v x step = some d) :
    d.negative = false ∧ Binary64.round d.toRat = x ∧ d.toRat ≤ v + 10 ^ step := by
  have grid : (0 : ℚ) < 10 ^ step := by positivity
  have below := floor_toNat_mul_le hv.le grid
  simp only [neighbour?] at h
  split_ifs at h with hb hu ha <;> cases h
  · simp only [Bool.and_eq_true, decide_eq_true_eq] at hu
    refine ⟨rfl, by simpa [toRat] using hu.1, ?_⟩
    simp only [toRat, Bool.false_eq_true, if_false]
    push_cast
    linarith
  · refine ⟨rfl, by simpa [toRat] using hb, ?_⟩
    simp only [toRat, Bool.false_eq_true, if_false]
    linarith
  · refine ⟨rfl, by simpa [toRat] using ha, ?_⟩
    simp only [toRat, Bool.false_eq_true, if_false]
    push_cast
    linarith

theorem shortest_spec {v : ℚ} (hv : 0 < v) (grid : OnGrid v) :
    (shortest v).negative = false ∧ 0 < (shortest v).digits ∧ (shortest v).toRat ≤ 2 * v := by
  have lead := ten_zpow_leadingExponent_le hv
  have tried : shortest v = ((List.range 17).findSome? fun (extra : ℕ) =>
      neighbour? v (Binary64.round v) (leadingExponent v - (extra : ℤ))).getD
        ⟨false, (v / (10 : ℚ) ^ (leadingExponent v - 16)).floor.toNat, leadingExponent v - 16⟩ := rfl
  rw [tried]
  cases found : (List.range 17).findSome? fun (extra : ℕ) =>
      neighbour? v (Binary64.round v) (leadingExponent v - (extra : ℤ)) with
  | some d =>
    obtain ⟨extra, -, h⟩ := List.exists_of_findSome?_eq_some found
    obtain ⟨sign, readsBack, size⟩ := neighbour?_spec hv h
    rw [Option.getD_some]
    refine ⟨sign, Nat.pos_of_ne_zero fun zero => hv.ne ?_, ?_⟩
    · have value : d.toRat = 0 := by simp [toRat, zero]
      rw [value, Binary64.round_of_onGrid grid, Binary64.round_of_onGrid onGrid_zero] at readsBack
      exact Binary64.finite.inj readsBack
    · have : (10 : ℚ) ^ (leadingExponent v - (extra : ℤ)) ≤ 10 ^ leadingExponent v :=
        zpow_le_zpow_right₀ (by norm_num) (by omega)
      linarith
  | none =>
    have step : (0 : ℚ) < 10 ^ (leadingExponent v - 16) := by positivity
    have large : (1 : ℚ) ≤ v / 10 ^ (leadingExponent v - 16) := by
      rw [le_div_iff₀ step, one_mul]
      exact (zpow_le_zpow_right₀ (by norm_num) (by omega)).trans lead
    have floorPos : 1 ≤ (v / (10 : ℚ) ^ (leadingExponent v - 16)).floor :=
      Rat.le_floor_iff.mpr (by exact_mod_cast large)
    rw [Option.getD_none]
    refine ⟨rfl, by dsimp only; omega, ?_⟩
    have below := floor_toNat_mul_le hv.le step
    simp only [toRat, Bool.false_eq_true, if_false]
    linarith

theorem ten_zpow_significant_le {d : Decimal} (hs : d.negative = false) (hd : 0 < d.digits) :
    (10 : ℚ) ^ (significant d).2 ≤ d.toRat := by
  have len := Nat.length_toDigits_pos (b := 10) (n := d.digits)
  have bound : 10 ^ ((Nat.toDigits 10 d.digits).length - 1) ≤ d.digits := by
    rcases Nat.eq_zero_or_pos ((Nat.toDigits 10 d.digits).length - 1) with zero | pos
    · rw [zero]; exact hd
    · by_contra small
      have := (Nat.length_toDigits_le_iff (b := 10) (by decide) pos).mpr (not_le.mp small)
      omega
  have exponent : (significant d).2 =
      ((Nat.toDigits 10 d.digits).length - 1 : ℕ) + d.exponent := by
    simp only [significant]
    omega
  rw [exponent, zpow_add₀ (by norm_num), zpow_natCast, toRat, hs]
  simp only [Bool.false_eq_true, if_false]
  gcongr
  exact_mod_cast bound

theorem significant_ne_nil {d : Decimal} (hd : 0 < d.digits) : (significant d).1 ≠ [] := by
  intro empty
  have none : ∀ c ∈ Nat.toDigits 10 d.digits, c = '0' := by
    simpa [significant, List.dropWhile_eq_nil_iff] using empty
  have zeros : Nat.toDigits 10 d.digits =
      List.replicate (Nat.toDigits 10 d.digits).length '0' :=
    List.eq_replicate_of_mem none
  have value := Nat.ofDigitChars_ten_toDigits (n := d.digits)
  rw [zeros, Nat.ofDigitChars_replicate_zero, Nat.mul_zero] at value
  omega

theorem isDigit_of_mem_significant {d : Decimal} {c : Char} (hc : c ∈ (significant d).1) :
    c.isDigit = true := by
  simp only [significant, List.mem_reverse] at hc
  have hm := (List.dropWhile_sublist _).subset hc
  exact Nat.isDigit_of_mem_toDigits (by decide) (by decide) (List.mem_reverse.mp hm)

theorem exists_append_zeros (cs : List Char) :
    ∃ k, (cs.reverse.dropWhile (· == '0')).reverse ++ List.replicate k '0' = cs := by
  have zeros := List.eq_replicate_of_mem (a := '0') (l := cs.reverse.takeWhile (· == '0'))
    fun c hc => by simpa using List.mem_takeWhile_imp hc
  refine ⟨(cs.reverse.takeWhile (· == '0')).length, ?_⟩
  rw [← List.reverse_replicate, ← zeros, ← List.reverse_append, List.takeWhile_append_dropWhile,
    List.reverse_reverse]

/-- The number of a run of digits whose first one stands at the exponent. -/
def placeValue (digits : List Char) (exponent : ℤ) : ℚ :=
  Text.digitsValue digits * 10 ^ (exponent + 1 - digits.length)

theorem placeValue_eq_div {digits : List Char} {exponent : ℤ} {k : ℕ}
    (h : exponent + 1 + k = digits.length) :
    placeValue digits exponent = Text.digitsValue digits / 10 ^ k := by
  rw [placeValue, ← h, sub_add_cancel_left, zpow_neg, zpow_natCast, div_eq_mul_inv]

theorem placeValue_append_zeros {digits : List Char} {exponent : ℤ} {k : ℕ}
    (h : exponent + 1 = digits.length + k) :
    placeValue digits exponent = Text.digitsValue (digits ++ List.replicate k '0') := by
  rw [placeValue, h, add_sub_cancel_left, zpow_natCast, Text.digitsValue_append,
    Text.digitsValue_replicate_zero, List.length_replicate, add_zero]
  push_cast
  rfl

theorem placeValue_significant {d : Decimal} (hs : d.negative = false) :
    placeValue (significant d).1 (significant d).2 = d.toRat := by
  obtain ⟨k, whole⟩ := exists_append_zeros (Nat.toDigits 10 d.digits)
  have length := congrArg List.length whole
  have value := Text.digitsValue_toDigits d.digits
  rw [← whole, Text.digitsValue_append, Text.digitsValue_replicate_zero, List.length_replicate,
    add_zero] at value
  rw [List.length_append, List.length_replicate] at length
  have exponent : (significant d).2 + 1 - ((significant d).1.length : ℕ) = k + d.exponent := by
    simp only [significant, ← length]
    push_cast
    ring
  rw [placeValue, exponent, zpow_add₀ (by norm_num), zpow_natCast, toRat, hs, ← value]
  simp [significant, mul_assoc]

/-- Below 1 the zeros stand between the point and the digits. -/
theorem exists_numeral_positional_of_neg {digits : List Char} {exponent : ℤ}
    (hd : ∀ c ∈ digits, c.isDigit = true) (hne : digits ≠ []) (sign : exponent < 0) :
    ∃ n : Numeral, (positional digits exponent).toList = n.chars ∧
      (n.decimal false).toRat = placeValue digits exponent := by
  refine ⟨⟨['0'], List.replicate (-exponent - 1).toNat '0' ++ digits, by simp, by simp, ?_⟩, ?_, ?_⟩
  · intro c hc
    exact (List.mem_append.mp hc).elim Text.isDigit_of_mem_zeros (hd c)
  · simp [positional, sign, Numeral.chars, hne]
  · have zeros : ['0'] ++ (List.replicate (-exponent - 1).toNat '0' ++ digits) =
        List.replicate ((-exponent - 1).toNat + 1) '0' ++ digits := rfl
    rw [Numeral.toRat_decimal_false, zeros, Text.digitsValue_append, Text.digitsValue_replicate_zero,
      zero_mul, zero_add, placeValue_eq_div]
    rw [List.length_append, List.length_replicate]
    omega

/-- From 1 on the digits are filled up to the point, and a zero stands for missing places. -/
theorem exists_numeral_positional_of_nonneg {digits : List Char} {exponent : ℤ}
    (hd : ∀ c ∈ digits, c.isDigit = true) (hne : digits ≠ []) (sign : ¬ exponent < 0) :
    ∃ n : Numeral, (positional digits exponent).toList = n.chars ∧
      (n.decimal false).toRat = placeValue digits exponent := by
  generalize hp : digits ++ List.replicate (exponent.toNat + 1 - digits.length) '0' = padded
  have all : ∀ c ∈ padded, c.isDigit = true := by
    intro c hc
    rw [← hp] at hc
    exact (List.mem_append.mp hc).elim (hd c) Text.isDigit_of_mem_zeros
  have front : padded.take (exponent.toNat + 1) ≠ [] := by simp [← hp, hne]
  simp only [positional, if_neg sign, hp]
  by_cases rest : padded.drop (exponent.toNat + 1) = []
  · refine ⟨⟨padded.take (exponent.toNat + 1), ['0'], front, fun c hc =>
      all c (List.mem_of_mem_take hc), by simp⟩, ?_, ?_⟩
    · simp only [rest, List.isEmpty_nil, if_true, Numeral.chars]
      simp
    · rw [List.drop_eq_nil_iff, ← hp, List.length_append, List.length_replicate] at rest
      have whole : padded.take (exponent.toNat + 1) = padded := by
        rw [List.take_eq_self_iff, ← hp, List.length_append, List.length_replicate]
        exact rest
      rw [Numeral.toRat_decimal_false]
      dsimp only
      rw [whole, Text.digitsValue_append, ← List.replicate_one, Text.digitsValue_replicate_zero, ← hp,
        placeValue_append_zeros (k := exponent.toNat + 1 - digits.length) (by omega)]
      simp
  · refine ⟨⟨padded.take (exponent.toNat + 1), padded.drop (exponent.toNat + 1), front,
      fun c hc => all c (List.mem_of_mem_take hc), fun c hc => all c (List.mem_of_mem_drop hc)⟩, ?_, ?_⟩
    · have kept : (padded.drop (exponent.toNat + 1)).isEmpty = false := by simpa using rest
      simp only [kept, Numeral.chars, rest]
      simp
    · rw [List.drop_eq_nil_iff, ← hp, List.length_append, List.length_replicate] at rest
      have none : exponent.toNat + 1 - digits.length = 0 := by omega
      rw [none, List.replicate_zero, List.append_nil] at hp
      rw [Numeral.toRat_decimal_false]
      dsimp only
      rw [List.take_append_drop, ← hp, placeValue_eq_div]
      rw [List.length_drop]
      omega

theorem exists_numeral_positional {digits : List Char} (exponent : ℤ)
    (hd : ∀ c ∈ digits, c.isDigit = true) (hne : digits ≠ []) :
    ∃ n : Numeral, (positional digits exponent).toList = n.chars ∧
      (n.decimal false).toRat = placeValue digits exponent := by
  by_cases sign : exponent < 0
  · exact exists_numeral_positional_of_neg hd hne sign
  · exact exists_numeral_positional_of_nonneg hd hne sign

/-- Zeros at the end of the places go, and the point with the last of them. -/
theorem stripZeros_append (before : List Char) {places : List Char} (hp : ∀ c ∈ places, c.isDigit = true) :
    ∃ kept : List Char, (∀ c ∈ kept, c.isDigit = true) ∧
      (∃ k, kept ++ List.replicate k '0' = places) ∧
      (stripZeros (String.ofList (before ++ '.' :: places))).toList =
        before ++ if kept = [] then [] else '.' :: kept := by
  refine ⟨(places.reverse.dropWhile (· == '0')).reverse, ?_, exists_append_zeros places, ?_⟩
  · intro c hc
    have hm := (List.dropWhile_sublist _).subset (List.mem_reverse.mp hc)
    exact hp c (List.mem_reverse.mp hm)
  · have mirrored : (before ++ '.' :: places).reverse = places.reverse ++ '.' :: before.reverse := by
      simp
    rw [stripZeros, String.toList_ofList, mirrored, List.dropWhile_append]
    cases kept : places.reverse.dropWhile (· == '0') with
    | nil => simp
    | cons c rest =>
      have notPoint : c ≠ '.' := by
        rintro rfl
        have hm := (List.dropWhile_sublist (l := places.reverse) (· == '0')).subset
          (kept ▸ List.mem_cons_self)
        exact absurd (hp '.' (List.mem_reverse.mp hm)) (by decide)
      simp only [List.isEmpty_cons, Bool.false_eq_true, if_false, List.cons_append]
      split
      · rename_i h; exact absurd (List.cons.inj h).1 notPoint
      · simp

theorem exists_numeral_fixedDigits (places units : ℕ) (hp : 0 < places) :
    ∃ whole rest : List Char, whole ≠ [] ∧ (∀ c ∈ whole, c.isDigit = true) ∧
      (∀ c ∈ rest, c.isDigit = true) ∧
      (fixedDigits places units).toList = whole ++ '.' :: rest ∧ rest.length = places ∧
      Text.digitsValue (whole ++ rest) = units := by
  generalize hd : List.replicate (places + 1 - (Nat.toDigits 10 units).length) '0' ++
    Nat.toDigits 10 units = padded
  have all : ∀ c ∈ padded, c.isDigit = true := by
    intro c hc
    rw [← hd] at hc
    rcases List.mem_append.mp hc with hc | hc
    · exact Text.isDigit_of_mem_zeros hc
    · exact Nat.isDigit_of_mem_toDigits (by decide) (by decide) hc
  have long : places + 1 ≤ padded.length := by rw [← hd]; simp; omega
  refine ⟨padded.take (padded.length - places), padded.drop (padded.length - places), ?_,
    fun c hc => all c (List.mem_of_mem_take hc), fun c hc => all c (List.mem_of_mem_drop hc), ?_, ?_, ?_⟩
  · intro empty
    have := congrArg List.length empty
    simp at this
    omega
  · simp [fixedDigits, hd, hp.ne']
  · rw [List.length_drop]
    omega
  · rw [List.take_append_drop, ← hd, Text.digitsValue_append, Text.digitsValue_replicate_zero,
      zero_mul, zero_add, Text.digitsValue_toDigits]

theorem abs_le_of_den_ne_one {v : ℚ} (h : OnGrid v) (hd : v.den ≠ 1) : |v| ≤ 2 ^ 52 := by
  obtain ⟨m, k, hm, hv, -⟩ := h
  rcases Nat.lt_or_ge k 1074 with small | large
  · have hm' : |(m : ℚ)| ≤ 2 ^ 53 := by
      rw [← Int.cast_abs, Int.abs_eq_natAbs]
      exact_mod_cast hm
    rw [hv, abs_div, abs_mul, abs_of_pos (Binary64.two_pow_pos _),
      abs_of_pos (Binary64.two_pow_pos _), div_le_iff₀ (Binary64.two_pow_pos _)]
    calc |(m : ℚ)| * 2 ^ k ≤ 2 ^ 53 * 2 ^ 1073 := by
          gcongr
          · norm_num
          · omega
      _ = 2 ^ 52 * 2 ^ 1074 := by rw [← pow_add, ← pow_add]
  · refine absurd ?_ hd
    obtain ⟨j, rfl⟩ := Nat.exists_eq_add_of_le large
    have whole : v = ((m * 2 ^ j : ℤ) : ℚ) := by
      rw [hv, pow_add]
      push_cast
      field_simp
    rw [whole, Rat.den_intCast]

theorem onGrid_abs {v : ℚ} (h : OnGrid v) : OnGrid v.abs := by
  rw [ratAbs_eq_abs]
  rcases abs_choice v with e | e <;> rw [e]
  · exact h
  · exact h.neg

theorem isNegative_finite {v : ℚ} (h : OnGrid v) :
    (Binary64.finite v h).isNegative = true ↔ v < 0 :=
  ⟨fun hn => of_decide_eq_true hn, fun hn => decide_eq_true hn⟩

theorem exists_numeral_shortestText {v : ℚ} (h : OnGrid v) (hd : v.den ≠ 1)
    (hs : ¬ (significant (shortest v.abs)).2 < -4) :
    ∃ n : Numeral, (shortestText (.finite v h)).toList = n.signedChars (decide (v < 0)) ∧
      (n.decimal false).toRat = (shortest v.abs).toRat := by
  have nonzero : v ≠ 0 := by rintro rfl; exact hd rfl
  have pos : 0 < v.abs := by rw [ratAbs_eq_abs]; exact abs_pos.mpr nonzero
  obtain ⟨sign, digits, size⟩ := shortest_spec pos (onGrid_abs h)
  have small : (significant (shortest v.abs)).2 < 16 := by
    have hp := ten_zpow_significant_le sign digits
    have bound : v.abs ≤ 2 ^ 52 := by rw [ratAbs_eq_abs]; exact abs_le_of_den_ne_one h hd
    have below : (10 : ℚ) ^ (significant (shortest v.abs)).2 < 10 ^ (16 : ℤ) := by
      calc (10 : ℚ) ^ (significant (shortest v.abs)).2 ≤ 2 * v.abs := hp.trans size
        _ ≤ 2 * 2 ^ 52 := by gcongr
        _ < 10 ^ (16 : ℤ) := by norm_num
    exact (zpow_lt_zpow_iff_right₀ (by norm_num)).mp below
  obtain ⟨n, hn, value⟩ := exists_numeral_positional (significant (shortest v.abs)).2
    (fun c hc => isDigit_of_mem_significant hc) (significant_ne_nil digits)
  refine ⟨n, ?_, by rw [value, placeValue_significant sign]⟩
  have positionalRange : -4 ≤ (significant (shortest v.abs)).2 ∧
      (significant (shortest v.abs)).2 < 16 := ⟨by omega, small⟩
  simp only [shortestText, if_neg nonzero, if_pos positionalRange, Numeral.signedChars]
  by_cases negative : v < 0
  · simp only [negative, if_true, decide_true, String.toList_append, hn]
    rfl
  · simp only [negative, if_false, decide_false, Bool.false_eq_true, hn]

/-- Fixed places, cut after the last nonzero digit. What stands in front of them stays. -/
theorem exists_numeral_stripped (front : List Char) (places units : ℕ) (hp : 0 < places) :
    ∃ n : Numeral, (stripZeros (String.ofList (front ++ (fixedDigits places units).toList))).toList =
      front ++ n.chars ∧ (n.decimal false).toRat = units / 10 ^ places := by
  obtain ⟨whole, rest, hne, hw, hr, ht, length, value⟩ := exists_numeral_fixedDigits places units hp
  obtain ⟨kept, hk, ⟨k, zeros⟩, hs⟩ := stripZeros_append (front ++ whole) hr
  rw [List.append_assoc, ← ht, List.append_assoc] at hs
  refine ⟨⟨whole, kept, hne, hw, hk⟩, hs, ?_⟩
  rw [← zeros, List.length_append, List.length_replicate] at length
  rw [← zeros, ← List.append_assoc, Text.digitsValue_append, Text.digitsValue_replicate_zero,
    add_zero, List.length_replicate] at value
  rw [Numeral.toRat_decimal_false, ← value, ← length, pow_add]
  push_cast
  field_simp

/-- The first twenty places of a double, cut after its last nonzero digit. -/
theorem exists_numeral_stripZeros {v : ℚ} (h : OnGrid v) :
    ∃ n : Numeral, (stripZeros (fixedText 20 (.finite v h))).toList =
      n.signedChars (decide (v < 0)) ∧ (n.decimal false).toRat = fixedUnits 20 v / 10 ^ 20 := by
  have text (front : List Char) (hf : (fixedText 20 (.finite v h)).toList =
      front ++ (fixedDigits 20 (fixedUnits 20 v)).toList) : ∃ n : Numeral,
        (stripZeros (fixedText 20 (.finite v h))).toList = front ++ n.chars ∧
          (n.decimal false).toRat = fixedUnits 20 v / 10 ^ 20 := by
    rw [← String.ofList_toList (s := fixedText 20 _), hf]
    exact exists_numeral_stripped front 20 _ (by decide)
  by_cases negative : v < 0
  · obtain ⟨n, hs, value⟩ := text ['-'] (by
      simp only [fixedText, (isNegative_finite h).mpr negative, if_true, String.toList_append]
      rfl)
    exact ⟨n, by simp [hs, Numeral.signedChars, negative], value⟩
  · have unsigned : (Binary64.finite v h).isNegative = false := by
      rw [Bool.eq_false_iff]
      exact fun hn => negative ((isNegative_finite h).mp hn)
    obtain ⟨n, hs, value⟩ := text [] (by
      simp only [fixedText, unsigned, Bool.false_eq_true, if_false, String.toList_append]
      rfl)
    exact ⟨n, by simp [hs, Numeral.signedChars, negative], value⟩

theorem toList_plainText_intCast {x : Binary64} {z : ℤ} (hx : x.toRat? = some (z : ℚ)) :
    (plainText x).toList = (Numeral.ofNat z.natAbs).signedChars (decide (z < 0)) := by
  have written : plainText x = toString z := by
    cases x with
    | nan => cases hx
    | inf s => cases hx
    | negZero =>
      have zero : z = 0 := by exact_mod_cast (Option.some.inj hx).symm
      subst zero
      rfl
    | finite v h =>
      cases hx
      simp [plainText]
  rw [written]
  cases z with
  | ofNat m => simp [Numeral.signedChars, toString, Int.repr]
  | negSucc m => simp [Numeral.signedChars, toString, Int.repr]

/-- The size that the plain text of a double writes. -/
def writtenSize (v : ℚ) : ℚ :=
  if v.den = 1 then |v|
  else if (significant (shortest v.abs)).2 < -4 then fixedUnits 20 v / 10 ^ 20
  else (shortest v.abs).toRat

theorem writtenSize_intCast (z : ℤ) : writtenSize z = |(z : ℚ)| := by
  rw [writtenSize, if_pos (Rat.den_intCast z)]

theorem exists_numeral_writtenSize {x : Binary64} {v : ℚ} (hx : x.toRat? = some v) :
    ∃ n : Numeral, (plainText x).toList = n.signedChars (decide (v < 0)) ∧
      (n.decimal false).toRat = writtenSize v := by
  have natural : ∀ z : ℤ, ((Numeral.ofNat z.natAbs).decimal false).toRat = writtenSize z := by
    intro z
    rw [Numeral.toRat_decimal_ofNat, writtenSize_intCast, Nat.cast_natAbs, Int.cast_abs]
  cases x with
  | nan => cases hx
  | inf s => cases hx
  | negZero =>
    cases hx
    exact ⟨_, toList_plainText_intCast (x := .negZero) (z := 0) rfl, by simpa using natural 0⟩
  | finite u h =>
    cases hx
    by_cases hd : v.den = 1
    · have whole : v = ((v.num : ℤ) : ℚ) := (Rat.coe_int_num_of_den_eq_one hd).symm
      have sign : decide (v.num < 0) = decide (v < 0) := by simp [Rat.num_neg]
      have value : (Binary64.finite v h).toRat? = some (v.num : ℚ) := congrArg some whole
      exact ⟨_, (toList_plainText_intCast value).trans (by rw [sign]), by rw [natural, ← whole]⟩
    · simp only [plainText, writtenSize, if_neg hd]
      split_ifs with small
      · exact exists_numeral_stripZeros h
      · exact exists_numeral_shortestText h hd small

theorem exists_numeral {x : Binary64} {v : ℚ} (hx : x.toRat? = some v) :
    ∃ n : Numeral, (plainText x).toList = n.signedChars (decide (v < 0)) := by
  obtain ⟨n, text, -⟩ := exists_numeral_writtenSize hx
  exact ⟨n, text⟩

theorem exact_eq {x : Binary64} {n : Numeral} {negative : Bool}
    (h : (plainText x).toList = n.signedChars negative) :
    exact x = .ok (n.decimal negative).toRat := by
  have value : exactValue? x = some (n.decimal negative).toRat := by
    rw [exactValue?, h, Numeral.splitSign_signedChars]
    simp only [Numeral.ofPlain?_chars, Option.map_some]
    rfl
  rw [exact, value]

theorem exact_intCast {x : Binary64} {z : ℤ} (hx : x.toRat? = some (z : ℚ)) : exact x = .ok z := by
  rw [exact_eq (toList_plainText_intCast hx), Numeral.toRat_decimal, Numeral.toRat_decimal_ofNat]
  congr 1
  rcases lt_or_ge z 0 with neg | nonneg
  · have size : |(z : ℚ)| = -z := abs_of_neg (by exact_mod_cast neg)
    simp [neg, Nat.cast_natAbs, size]
  · have size : |(z : ℚ)| = z := abs_of_nonneg (by exact_mod_cast nonneg)
    simp [not_lt.mpr nonneg, Nat.cast_natAbs, size]

end FunctionStudy.Decimal
