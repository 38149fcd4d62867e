import FunctionStudy.Decimal.Plain
import FunctionStudy.Error
import FunctionStudy.Formula.Token
import FunctionStudy.Proofs.Binary64.Exact

/-! Unsigned numerals. A numeral is a run of digits, possibly with a point and more digits. The
reader of terms and the reader of formulas give it the same value. -/

namespace FunctionStudy

namespace Text

theorem digitValue?_of_isDigit {c : Char} (h : c.isDigit = true) :
    digitValue? c = some (c.toNat - 48) := by
  obtain ⟨low, high⟩ := Char.isDigit_iff_toNat.mp h
  have first : (48 ≤ c.toNat && c.toNat < 48 + 10) = true := by
    simp only [Bool.and_eq_true, decide_eq_true_eq]
    exact ⟨low, by change c.toNat < 58; change c.toNat ≤ 57 at high; omega⟩
  simp only [digitValue?, zeroDigits, List.find?_cons, first, Option.map_some]

theorem isDigit_of_ascii {c : Char} (h : c.isDigit = true) : isDigit c = true := by
  simp [isDigit, digitValue?_of_isDigit h]

theorem digitsValue_eq {cs : List Char} (h : ∀ c ∈ cs, c.isDigit = true) :
    digitsValue cs = Nat.ofDigitChars 10 cs 0 := by
  induction cs using List.reverseRecOn with
  | nil => rfl
  | append_singleton cs c ih =>
    rw [digitsValue_append_singleton, digitValue?_of_isDigit (h c (by simp)),
      ih fun d hd => h d (by simp [hd]), Nat.ofDigitChars_append]
    rfl

theorem digitsValue_toDigits (n : ℕ) : digitsValue (Nat.toDigits 10 n) = n := by
  rw [digitsValue_eq fun c hc => Nat.isDigit_of_mem_toDigits (by decide) (by decide) hc,
    Nat.ofDigitChars_ten_toDigits]

theorem digitsValue_append (cs ds : List Char) :
    digitsValue (cs ++ ds) = digitsValue cs * 10 ^ ds.length + digitsValue ds := by
  induction ds using List.reverseRecOn with
  | nil => simp
  | append_singleton ds c ih =>
    rw [← List.append_assoc, digitsValue_append_singleton, digitsValue_append_singleton, ih,
      List.length_append, List.length_singleton, pow_succ]
    ring

theorem isDigit_of_mem_zeros {k : ℕ} {c : Char} (hc : c ∈ List.replicate k '0') : c.isDigit = true := by
  rw [List.eq_of_mem_replicate hc]
  rfl

@[simp] theorem digitsValue_replicate_zero (k : ℕ) : digitsValue (List.replicate k '0') = 0 := by
  rw [digitsValue_eq fun _ => isDigit_of_mem_zeros, Nat.ofDigitChars_replicate_zero, Nat.mul_zero]

/-- A run of a class at the front ends where something outside the class follows. -/
theorem span_append {p : Char → Bool} (cs rest : List Char) (hc : ∀ c ∈ cs, p c = true)
    (hr : ∀ c ∈ rest.head?, p c = false) :
    (cs ++ rest).takeWhile p = cs ∧ (cs ++ rest).dropWhile p = rest := by
  rw [List.takeWhile_append_of_pos hc, List.dropWhile_append_of_pos hc]
  cases rest with
  | nil => simp
  | cons c rest => simp [hr c (by simp)]

end Text

/-- Digits, with at least one in front of the point. -/
structure Numeral where
  whole : List Char
  places : List Char
  whole_ne_nil : whole ≠ []
  whole_digits : ∀ c ∈ whole, c.isDigit = true
  places_digits : ∀ c ∈ places, c.isDigit = true

namespace Numeral

/-- The point is written only in front of places. -/
def chars (n : Numeral) : List Char :=
  n.whole ++ if n.places = [] then [] else '.' :: n.places

def decimal (n : Numeral) (negative : Bool) : Decimal :=
  ⟨negative, Text.digitsValue (n.whole ++ n.places), -n.places.length⟩

/-- The numeral after its sign; a plus is not written. -/
def signedChars (negative : Bool) (n : Numeral) : List Char :=
  if negative then '-' :: n.chars else n.chars

def ofNat (m : ℕ) : Numeral where
  whole := Nat.toDigits 10 m
  places := []
  whole_ne_nil := Nat.toDigits_ne_nil
  whole_digits _ hc := Nat.isDigit_of_mem_toDigits (by decide) (by decide) hc
  places_digits _ hc := by cases hc

@[simp] theorem chars_ofNat (m : ℕ) : (ofNat m).chars = Nat.toDigits 10 m := by
  simp [chars, ofNat]

@[simp] theorem decimal_ofNat (m : ℕ) (negative : Bool) :
    (ofNat m).decimal negative = ⟨negative, m, 0⟩ := by
  simp [decimal, ofNat, Text.digitsValue_toDigits]

theorem exists_whole_cons (n : Numeral) :
    ∃ c rest, n.whole = c :: rest ∧ c.isDigit = true := by
  cases h : n.whole with
  | nil => exact absurd h n.whole_ne_nil
  | cons c rest => exact ⟨c, rest, rfl, n.whole_digits c (by simp [h])⟩

theorem exists_chars_cons (n : Numeral) : ∃ c rest, n.chars = c :: rest ∧ c.isDigit = true := by
  obtain ⟨c, rest, hw, hc⟩ := n.exists_whole_cons
  exact ⟨c, _, by rw [chars, hw, List.cons_append], hc⟩

theorem mem_chars {n : Numeral} {c : Char} (hc : c ∈ n.chars) : c.isDigit = true ∨ c = '.' := by
  rw [chars, List.mem_append] at hc
  rcases hc with hc | hc
  · exact .inl (n.whole_digits c hc)
  · split_ifs at hc with hp
    · cases hc
    · rcases List.mem_cons.mp hc with rfl | hc
      · exact .inr rfl
      · exact .inl (n.places_digits c hc)

section Reading

theorem ofPlain?_chars (n : Numeral) : Decimal.ofPlain? n.chars = some (n.decimal false) := by
  have hw : ∀ c ∈ n.whole, Text.isDigit c = true := fun c hc =>
    Text.isDigit_of_ascii (n.whole_digits c hc)
  have hp : n.places.all Text.isDigit = true :=
    List.all_eq_true.mpr fun c hc => Text.isDigit_of_ascii (n.places_digits c hc)
  have nonempty : n.whole.isEmpty = false := by simpa using n.whole_ne_nil
  have point : Text.isDigit '.' = false := by decide +kernel
  rw [chars]
  split_ifs with places
  · obtain ⟨ht, hd⟩ := Text.span_append _ [] hw (by simp)
    rw [Decimal.ofPlain?, ht, hd]
    simp [nonempty, decimal, places]
  · obtain ⟨ht, hd⟩ := Text.span_append _ ('.' :: n.places) hw (by simp [point])
    rw [Decimal.ofPlain?, ht, hd]
    simp [hp, places, decimal]

/-- What may follow a numeral without becoming part of it: no digit, no point and no exponent. -/
def EndsBefore (rest : List Char) : Prop :=
  (∀ c ∈ rest.head?, c.isDigit = false ∧ c ≠ '.') ∧ Formula.scale rest = (0, rest)

theorem number?_chars (n : Numeral) {rest : List Char} (h : EndsBefore rest) :
    Formula.number? (n.chars ++ rest) = some ((n.decimal false).toRat, rest) := by
  have nonempty : n.whole.isEmpty = false := by simpa using n.whole_ne_nil
  have stops : ∀ c ∈ rest.head?, c.isDigit = false := fun c hc => (h.1 c hc).1
  rw [chars]
  split_ifs with places
  · obtain ⟨ht, hd⟩ := Text.span_append _ _ n.whole_digits stops
    rw [List.append_nil, Formula.number?, ht, hd]
    split
    rename_i read
    split at read
    · exact absurd rfl (h.1 '.' (by simp)).2
    · cases read
      simp [nonempty, h.2, decimal, places]
  · obtain ⟨ht, hd⟩ := Text.span_append _ ('.' :: (n.places ++ rest)) n.whole_digits
      (by simp)
    obtain ⟨hpt, hpd⟩ := Text.span_append _ _ n.places_digits stops
    rw [List.append_assoc, List.cons_append, Formula.number?, ht, hd]
    simp only [hpt, hpd, nonempty, h.2, decimal]
    simp

theorem splitSign_signedChars_append (n : Numeral) (negative : Bool) (rest : List Char) :
    Decimal.splitSign (n.signedChars negative ++ rest) = (negative, n.chars ++ rest) := by
  cases negative with
  | true => rfl
  | false =>
    obtain ⟨c, digits, hc, digit⟩ := n.exists_chars_cons
    have minus : c ≠ '-' := by rintro rfl; exact absurd digit (by decide)
    have plus : c ≠ '+' := by rintro rfl; exact absurd digit (by decide)
    simp [signedChars, hc, Decimal.splitSign, minus, plus]

theorem splitSign_signedChars (n : Numeral) (negative : Bool) :
    Decimal.splitSign (n.signedChars negative) = (negative, n.chars) := by
  simpa using n.splitSign_signedChars_append negative []

end Reading

theorem toRat_decimal (n : Numeral) (negative : Bool) :
    (n.decimal negative).toRat =
      if negative then -(n.decimal false).toRat else (n.decimal false).toRat := by
  cases negative <;> simp [decimal, Decimal.toRat]

theorem toRat_decimal_false (n : Numeral) :
    (n.decimal false).toRat = Text.digitsValue (n.whole ++ n.places) / 10 ^ n.places.length := by
  rw [decimal, Decimal.toRat, if_neg Bool.false_ne_true, zpow_neg, zpow_natCast, div_eq_mul_inv]

theorem toRat_decimal_ofNat (m : ℕ) : ((ofNat m).decimal false).toRat = m := by
  simp [Decimal.toRat]

end Numeral
end FunctionStudy
