import FunctionStudy.Decimal.Display
import FunctionStudy.Proofs.Binary64.Nearest
import FunctionStudy.Proofs.Decimal.PlainText

/-! Numbers for the reader. What a number is shown as, read as an integer, a decimal or a fraction,
is the number rounded to hundredths. -/

namespace FunctionStudy

section Nearest

variable {v : ℚ}

/-- No integer is nearer, and of two that are as near it is the even one. -/
structure IsNearestEven (v : ℚ) (n : ℤ) : Prop where
  nearest : ∀ m : ℤ, |(n : ℚ) - v| ≤ |(m : ℚ) - v|
  even : ∀ m : ℤ, |(m : ℚ) - v| = |(n : ℚ) - v| → m ≠ n → Even n

theorem two_mul_eq_of_tie {m n : ℤ} (tie : |(m : ℚ) - v| = |(n : ℚ) - v|) (apart : m ≠ n) : 2 * v = m + n := by
  rcases abs_eq_abs.mp tie with same | mirrored
  · exact absurd (by exact_mod_cast sub_left_injective same) apart
  · linarith

theorem even_nearestEven {j : ℤ} (middle : 2 * v = 2 * j + 1) : Even (nearestEven v) := by
  have floor : v.floor = j := by
    have least : j ≤ v.floor := Rat.le_floor_iff.mpr (by linarith)
    have most : (v.floor : ℚ) < j + 1 := (Rat.floor_le v).trans_lt (by linarith)
    have below : v.floor < j + 1 := by exact_mod_cast most
    omega
  rw [nearestEven, floor, if_neg (by linarith), if_neg (by linarith), Int.even_iff]
  split_ifs <;> omega

theorem isNearestEven_nearestEven (v : ℚ) : IsNearestEven v (nearestEven v) where
  nearest := abs_nearestEven_sub_le_intCast v
  even m tie apart := by
    have middle := two_mul_eq_of_tie tie apart
    have error := abs_le.mp (abs_nearestEven_sub_le v)
    have above : (m : ℚ) ≤ nearestEven v + 1 := by linarith
    have below : (nearestEven v : ℚ) ≤ m + 1 := by linarith
    -- Both are half of one away from the value, one below it and one above.
    rcases lt_or_gt_of_ne apart with less | greater
    · have next : nearestEven v = m + 1 := by
        have : nearestEven v ≤ m + 1 := by exact_mod_cast below
        omega
      exact even_nearestEven (j := m) (by rw [middle, next]; push_cast; ring)
    · have next : m = nearestEven v + 1 := by
        have : m ≤ nearestEven v + 1 := by exact_mod_cast above
        omega
      exact even_nearestEven (j := nearestEven v) (by rw [middle, next]; push_cast; ring)

end Nearest

namespace Decimal

/-- The number that a text shows: an integer or a decimal, or one integer over another one. -/
def readShown? (text : String) : Option ℚ :=
  let (negative, body) := splitSign text.toList
  match body.dropWhile (· != '/') with
  | [] => (ofPlain? body).map fun d => { d with negative }.toRat
  | _ :: below => do
    let upper ← ofPlain? (body.takeWhile (· != '/'))
    let lower ← ofPlain? below
    return { upper with negative }.toRat / lower.toRat

/-- A fraction as it is written. -/
def fractionChars (negative : Bool) (p q : ℕ) : List Char :=
  (Numeral.ofNat p).signedChars negative ++ '/' :: (Numeral.ofNat q).chars

variable {text : String} {negative : Bool}

theorem slash_notMem (n : Numeral) : '/' ∉ n.chars := by
  intro h
  rcases n.mem_chars h with digit | point
  · exact absurd digit (by decide)
  · exact absurd point (by decide)

theorem slash_notMem_signed (n : Numeral) (negative : Bool) : '/' ∉ n.signedChars negative := by
  cases negative with
  | false => exact slash_notMem n
  | true => exact List.not_mem_cons_of_ne_of_not_mem (by decide) (slash_notMem n)

theorem readShown?_numeral {n : Numeral} (h : text.toList = n.signedChars negative) :
    readShown? text = some (n.decimal negative).toRat := by
  have whole : n.chars.dropWhile (· != '/') = [] := by
    rw [List.dropWhile_eq_nil_iff]
    exact fun c hc => bne_iff_ne.mpr fun same => slash_notMem n (same ▸ hc)
  simp only [readShown?, h, n.splitSign_signedChars, whole, n.ofPlain?_chars, Option.map_some]
  rfl

theorem readShown?_fraction {p q : ℕ} (h : text.toList = fractionChars negative p q) :
    readShown? text = some ((if negative then -(p : ℚ) else p) / q) := by
  obtain ⟨upper, rest⟩ := Text.span_append (p := (· != '/')) (Numeral.ofNat p).chars ('/' :: (Numeral.ofNat q).chars)
    (fun c hc => bne_iff_ne.mpr fun same => slash_notMem _ (same ▸ hc)) (by simp)
  have value : ((Numeral.ofNat p).decimal negative).toRat / ((Numeral.ofNat q).decimal false).toRat =
      (if negative then -(p : ℚ) else p) / q := by
    rw [Numeral.toRat_decimal, Numeral.toRat_decimal_ofNat, Numeral.toRat_decimal_ofNat]
  rw [← value]
  simp only [readShown?, h, fractionChars, Numeral.splitSign_signedChars_append, upper, rest, Numeral.ofPlain?_chars,
    Option.bind_eq_bind, Option.bind_some]
  rfl

section Texts

variable {x : Binary64}

theorem toList_toString (k : ℕ) : (toString k).toList = (Numeral.ofNat k).chars := by
  simp [toString]

theorem toList_signed {body : String} {n : Numeral} (h : body.toList = n.chars) (negative : Bool) :
    ((if negative then "-" else "") ++ body).toList = n.signedChars negative := by
  cases negative <;> simp [Numeral.signedChars, h]

/-- What is shown of a number: its size in hundredths, with its sign. -/
def signedHundredths (x : Binary64) : ℚ := if x.isNegative then -(hundredths x / 100) else hundredths x / 100

theorem exists_signedChars {body : String} {n : Numeral} (text : body.toList = n.chars)
    (value : (n.decimal false).toRat = hundredths x / 100) : ∃ (m : Numeral) (negative : Bool),
    ((if x.isNegative then "-" else "") ++ body).toList = m.signedChars negative ∧
      (m.decimal negative).toRat = signedHundredths x :=
  ⟨n, x.isNegative, toList_signed text _, by rw [Numeral.toRat_decimal, value, signedHundredths]⟩

theorem exists_numeral_hundredths (h : ℕ) :
    ∃ n : Numeral, (fixedDigits 2 h).toList = n.chars ∧ (n.decimal false).toRat = h / 100 := by
  obtain ⟨whole, rest, some, wholeDigits, restDigits, text, length, value⟩ :=
    exists_numeral_fixedDigits 2 h (by decide)
  have places : rest ≠ [] := fun empty => by rw [empty] at length; cases length
  refine ⟨⟨whole, rest, some, wholeDigits, restDigits⟩, ?_, ?_⟩
  · rw [Numeral.chars, if_neg places]
    exact text
  · rw [Numeral.toRat_decimal_false]
    dsimp only
    rw [value, length]
    norm_num

theorem exists_numeral_twoDecimals (x : Binary64) : ∃ (n : Numeral) (negative : Bool),
    (twoDecimals x).toList = n.signedChars negative ∧ (n.decimal negative).toRat = signedHundredths x := by
  unfold twoDecimals
  dsimp only
  by_cases none : hundredths x = 0
  · refine ⟨.ofNat 0, false, ?_, ?_⟩
    · rw [if_pos none]
      rfl
    · rw [Numeral.toRat_decimal_ofNat, signedHundredths, none]
      simp
  rw [if_neg none]
  by_cases whole : hundredths x % 100 = 0
  · rw [if_pos whole]
    refine exists_signedChars (toList_toString _) ?_
    obtain ⟨k, units⟩ := Nat.dvd_of_mod_eq_zero whole
    rw [Numeral.toRat_decimal_ofNat, units, Nat.mul_div_cancel_left k (by decide), Nat.cast_mul, Nat.cast_ofNat,
      mul_div_cancel_left₀ _ (by norm_num)]
  · obtain ⟨n, text, value⟩ := exists_numeral_hundredths (hundredths x)
    rw [if_neg whole, fixedText, ← hundredths]
    exact exists_signedChars text value

/-- A fraction of at most two digits above and below, in lowest terms, and no integer. -/
def IsShort (r : ℚ) : Prop := r.den ≠ 1 ∧ r.num.natAbs < 100 ∧ r.den < 100

theorem natAbs_num_signedHundredths (x : Binary64) :
    (signedHundredths x).num.natAbs = (hundredths x / 100 : ℚ).num.toNat ∧
      (signedHundredths x).den = (hundredths x / 100 : ℚ).den := by
  have nonneg : 0 ≤ (hundredths x / 100 : ℚ).num := Rat.num_nonneg.mpr (by positivity)
  unfold signedHundredths
  split_ifs
  · rw [Rat.num_neg_eq_neg_num, Rat.den_neg_eq_den, Int.natAbs_neg]
    exact ⟨by omega, rfl⟩
  · exact ⟨by omega, rfl⟩

section Steps

variable {n : Numeral}

theorem placeCount_eq (h : text.toList = n.chars) : placeCount text = n.places.length := by
  have before : ∀ c ∈ n.whole, (c != '.') = true := fun c hc =>
    bne_iff_ne.mpr fun point => absurd (n.whole_digits c hc) (by rw [point]; decide)
  rw [placeCount, h, Numeral.chars, List.dropWhile_append_of_pos before]
  split_ifs with none
  · rw [none]
    rfl
  · rfl

theorem joinedDigits_eq (h : text.toList = n.chars) :
    joinedDigits text = Text.digitsValue (n.whole ++ n.places) := by
  have digits : ∀ cs : List Char, (∀ c ∈ cs, c.isDigit = true) → cs.filter (· != '.') = cs := fun cs hcs =>
    List.filter_eq_self.mpr fun c hc => bne_iff_ne.mpr fun point => absurd (hcs c hc) (by rw [point]; decide)
  rw [joinedDigits, h, Numeral.chars, List.filter_append, digits _ n.whole_digits]
  split_ifs with none
  · rw [none]
    rfl
  · rw [List.filter_cons_of_neg (by decide), digits _ n.places_digits]

theorem exists_numeral_shownDigits (x : Binary64) : ∃ n : Numeral,
    (shownDigits x).toList = n.chars ∧ (n.decimal false).toRat = hundredths x / 100 := by
  obtain ⟨n, text, value⟩ := exists_numeral_stripped [] 2 (hundredths x) (by decide)
  rw [List.nil_append, String.ofList_toList, List.nil_append] at text
  exact ⟨n, text, by rw [value]; norm_num⟩

theorem placeScale_pos (digits : String) : 0 < placeScale digits := Nat.pow_pos (by decide)

/-- The joined digits over the power of ten for their places are the hundredths. -/
theorem joinedDigits_div (x : Binary64) :
    (joinedDigits (shownDigits x) : ℚ) / (placeScale (shownDigits x) : ℕ) = hundredths x / 100 := by
  obtain ⟨n, text, value⟩ := exists_numeral_shownDigits x
  rw [joinedDigits_eq text, placeScale, placeCount_eq text, ← value, Nat.pow_eq,
    Numeral.toRat_decimal_false, Nat.cast_pow, Nat.cast_ofNat]

theorem num_den_natCast_div (a : ℕ) {b : ℕ} (hb : 0 < b) :
    ((a : ℚ) / b).num.toNat = a / a.gcd b ∧ ((a : ℚ) / b).den = b / a.gcd b := by
  have fraction : (a : ℚ) / b = Rat.divInt a b := by
    rw [Rat.divInt_eq_div, Int.cast_natCast, Int.cast_natCast]
  have sign : ((b : ℕ) : ℤ).sign = 1 := Int.sign_eq_one_of_pos (by exact_mod_cast hb)
  rw [fraction, Rat.num_divInt, Rat.den_divInt, if_neg (by exact_mod_cast hb.ne'), sign, one_mul,
    Int.gcd_natCast_natCast, Nat.gcd_comm b a]
  exact ⟨by norm_cast, rfl⟩

theorem lt_length_toString (n : ℕ) : largestDigitCount < (toString n).length ↔ 100 ≤ n := by
  have length : (toString n).length = (Nat.toDigits 10 n).length := by
    rw [← String.length_toList, toList_toString]
    simp [Numeral.chars, Numeral.ofNat]
  rw [length, lt_iff_not_ge]
  exact (not_congr (Nat.length_toDigits_le_iff (b := 10) (k := 2) (by decide) (by decide))).trans not_lt

theorem shownDigits_zero (x : Binary64) (none : shownDigits x = "" ∨ shownDigits x = "0") : hundredths x = 0 := by
  have value := joinedDigits_div x
  rcases none with none | none <;> rw [none] at value
  · have zero : joinedDigits "" = 0 := rfl
    rw [zero] at value
    simpa using value.symm
  · have zero : joinedDigits "0" = 0 := by decide +kernel
    rw [zero] at value
    simpa using value.symm

/-- The steps on the text come to the reduced fraction of the hundredths. -/
theorem displayText_eq (finite : x.isFinite = true) (latex : Bool) : displayText latex x =
    let shown : ℚ := hundredths x / 100
    if shown.den = 1 ∨ 100 ≤ shown.num.toNat ∨ 100 ≤ shown.den then twoDecimals x
    else
      let sign := if x.isNegative then "-" else ""
      if latex then s!"{sign}\\frac\x7b{shown.num.toNat}\x7d\x7b{shown.den}\x7d"
      else s!"{sign}{shown.num.toNat}/{shown.den}" := by
  have steps : displayText latex x =
      if shownDigits x = "" ∨ shownDigits x = "0" then twoDecimals x
      else
        let divisor := (joinedDigits (shownDigits x)).gcd (placeScale (shownDigits x))
        let numerator := joinedDigits (shownDigits x) / divisor
        let denominator := placeScale (shownDigits x) / divisor
        if denominator = 1 ∨ largestDigitCount < (toString numerator).length ∨
            largestDigitCount < (toString denominator).length then twoDecimals x
        else
          let sign := if x.isNegative then "-" else ""
          if latex then s!"{sign}\\frac\x7b{numerator}\x7d\x7b{denominator}\x7d"
          else s!"{sign}{numerator}/{denominator}" := by
    cases x with
    | nan => cases finite
    | inf s => cases finite
    | negZero => rfl
    | finite v grid => rfl
  obtain ⟨upper, lower⟩ := num_den_natCast_div (joinedDigits (shownDigits x))
    (placeScale_pos (shownDigits x))
  rw [joinedDigits_div] at upper lower
  rw [steps]
  dsimp only
  rw [← upper, ← lower]
  simp only [lt_length_toString]
  by_cases none : shownDigits x = "" ∨ shownDigits x = "0"
  · rw [if_pos none, if_pos (.inl (by rw [shownDigits_zero x none]; simp))]
  · rw [if_neg none]

end Steps

theorem isShort_iff (x : Binary64) : IsShort (signedHundredths x) ↔ ¬ ((hundredths x / 100 : ℚ).den = 1 ∨
    100 ≤ (hundredths x / 100 : ℚ).num.toNat ∨ 100 ≤ (hundredths x / 100 : ℚ).den) := by
  obtain ⟨upper, lower⟩ := natAbs_num_signedHundredths x
  rw [IsShort, upper, lower]
  omega

theorem displayText_of_not_isShort (finite : x.isFinite = true) (long : ¬ IsShort (signedHundredths x)) :
    displayText false x = twoDecimals x := by
  rw [displayText_eq finite]
  exact if_pos (not_not.mp (mt (isShort_iff x).mpr long))

theorem toList_displayText_of_isShort (finite : x.isFinite = true) (short : IsShort (signedHundredths x)) :
    (displayText false x).toList =
      fractionChars x.isNegative (signedHundredths x).num.natAbs (signedHundredths x).den := by
  have fraction : displayText false x = (if x.isNegative then "-" else "") ++
      toString (hundredths x / 100 : ℚ).num.toNat ++ "/" ++ toString (hundredths x / 100 : ℚ).den := by
    rw [displayText_eq finite]
    exact if_neg ((isShort_iff x).mp short)
  obtain ⟨upper, lower⟩ := natAbs_num_signedHundredths x
  rw [fraction, String.toList_append, String.toList_append, toList_signed (toList_toString _), toList_toString,
    ← upper, ← lower]
  simp [fractionChars]

theorem signed_parts (x : Binary64) :
    (if x.isNegative then -((signedHundredths x).num.natAbs : ℚ) else (signedHundredths x).num.natAbs) /
      (signedHundredths x).den = signedHundredths x := by
  obtain ⟨upper, lower⟩ := natAbs_num_signedHundredths x
  have nonneg : 0 ≤ (hundredths x / 100 : ℚ).num := Rat.num_nonneg.mpr (by positivity)
  have size : ((hundredths x / 100 : ℚ).num.toNat : ℚ) / (hundredths x / 100 : ℚ).den = hundredths x / 100 := by
    have whole : (((hundredths x / 100 : ℚ).num.toNat : ℤ) : ℚ) = (hundredths x / 100 : ℚ).num := by
      rw [Int.toNat_of_nonneg nonneg]
    rw [← Int.cast_natCast, whole, Rat.num_div_den]
  rw [upper, lower, signedHundredths]
  split_ifs
  · rw [neg_div, size]
  · exact size

theorem signedHundredths_eq (finite : x.isFinite = true) :
    signedHundredths x = (nearestEven (100 * x.toRat) : ℚ) / 100 := by
  have units : (hundredths x : ℤ) = nearestEven (100 * |x.toRat|) := by
    rw [hundredths, fixedUnits, ratAbs_eq_abs, mul_comm, show (10 : ℚ) ^ 2 = 100 by norm_num, Int.toNat_of_nonneg]
    exact le_nearestEven (by rw [Int.cast_zero]; positivity)
  have size : (hundredths x : ℚ) = nearestEven (100 * |x.toRat|) := by exact_mod_cast units
  have signed : signedHundredths x =
      if x.isNegative then -(nearestEven (100 * |x.toRat|) : ℚ) / 100 else nearestEven (100 * |x.toRat|) / 100 := by
    rw [signedHundredths, size, neg_div]
  rw [signed]
  cases x with
  | nan => cases finite
  | inf s => cases finite
  | negZero => simp [Binary64.toRat, Binary64.toRat?, show nearestEven 0 = 0 from nearestEven_intCast 0]
  | finite v grid =>
    have value : (Binary64.finite v grid).toRat = v := rfl
    rw [value]
    by_cases negative : v < 0
    · rw [if_pos ((isNegative_finite grid).mpr negative), abs_of_neg negative, mul_neg, nearestEven_neg, Int.cast_neg,
        neg_neg]
    · rw [if_neg fun sign => negative ((isNegative_finite grid).mp sign), abs_of_nonneg (not_lt.mp negative)]

theorem IsShort.parts {r : ℚ} (short : IsShort r) :
    2 ≤ r.den ∧ r.num.natAbs.Coprime r.den ∧ r.num.natAbs < 100 ∧ r.den < 100 := by
  obtain ⟨fraction, upper, lower⟩ := short
  have positive := r.den_pos
  exact ⟨by omega, r.reduced, upper, lower⟩

end Texts

/-- What is shown is the number rounded to hundredths. A fraction is shown exactly where the rounded number
is no integer and has two digits at most above and below, and it is in lowest terms. -/
theorem displayText_rounds {x : Binary64} (finite : x.isFinite = true) :
    ∃ n : ℤ, IsNearestEven (100 * x.toRat) n ∧ readShown? (displayText false x) = some (n / 100 : ℚ) ∧
      ('/' ∈ (displayText false x).toList ↔ IsShort (n / 100)) ∧
      ('/' ∈ (displayText false x).toList → ∃ negative p q, (displayText false x).toList = fractionChars negative p q ∧
        2 ≤ q ∧ p.Coprime q ∧ p < 100 ∧ q < 100) := by
  refine ⟨nearestEven (100 * x.toRat), isNearestEven_nearestEven _, ?_⟩
  rw [← signedHundredths_eq finite]
  by_cases short : IsShort (signedHundredths x)
  · have text := toList_displayText_of_isShort finite short
    have bar : '/' ∈ (displayText false x).toList := by rw [text, fractionChars]; simp
    refine ⟨?_, iff_of_true bar short, fun _ => ⟨_, _, _, text, short.parts⟩⟩
    rw [readShown?_fraction text, signed_parts]
  · obtain ⟨n, negative, text, value⟩ := exists_numeral_twoDecimals x
    rw [← displayText_of_not_isShort finite short] at text
    have bare : '/' ∉ (displayText false x).toList := by rw [text]; exact slash_notMem_signed n negative
    exact ⟨by rw [readShown?_numeral text, value], iff_of_false bare short, fun bar => absurd bar bare⟩

/-- -12.5 hundredths lie in the middle between -13 and -12. -/
theorem displayText_rounds_middle : (Binary64.round (-1 / 8)).isFinite = true ∧ ∃ n : ℤ,
    IsNearestEven (100 * (Binary64.round (-1 / 8)).toRat) n ∧
      readShown? (displayText false (Binary64.round (-1 / 8))) = some (n / 100 : ℚ) ∧
      ('/' ∈ (displayText false (Binary64.round (-1 / 8))).toList ↔ IsShort (n / 100)) ∧
      ('/' ∈ (displayText false (Binary64.round (-1 / 8))).toList → ∃ negative p q,
        (displayText false (Binary64.round (-1 / 8))).toList = fractionChars negative p q ∧
          2 ≤ q ∧ p.Coprime q ∧ p < 100 ∧ q < 100) := by
  have finite : (Binary64.round (-1 / 8)).isFinite = true := by decide +kernel
  exact ⟨finite, displayText_rounds finite⟩

example : displayText false (Binary64.round (-1 / 8)) = "-3/25" := by decide +kernel

end Decimal
end FunctionStudy
