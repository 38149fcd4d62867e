import FunctionStudy.Member
import FunctionStudy.Proofs.Formula.Reading

/-! Spellings of terms and sides. What a side of an equation may be written with: a syntax tree for
each part, the characters that it stands for, and what it means. Nothing here reads a text. -/

namespace FunctionStudy

section Characters

namespace Text

variable {c : Char}

theorem exists_zeroDigit (h : isDigit c = true) :
    ∃ first ∈ zeroDigits, first ≤ c.toNat ∧ c.toNat < first + 10 := by
  unfold isDigit digitValue? at h
  rw [Option.isSome_map, List.find?_isSome] at h
  simpa using h

/-- Whether the runs of digits and the ranges have nothing in common. -/
def avoidsDigits (ranges : List (Nat × Nat)) : Bool :=
  zeroDigits.all fun first => ranges.all fun range =>
    Nat.ble (first + 10) range.1 || Nat.ble (range.2 + 1) first

theorem any_eq_false_of_avoidsDigits {ranges : List (Nat × Nat)} (apart : avoidsDigits ranges = true)
    (h : isDigit c = true) :
    (ranges.any fun (low, high) => low ≤ c.toNat && c.toNat ≤ high) = false := by
  obtain ⟨first, member, low, high⟩ := exists_zeroDigit h
  rw [List.any_eq_false]
  intro range hr
  have sides := List.all_eq_true.mp (List.all_eq_true.mp apart first member) range hr
  simp only [Bool.or_eq_true, Nat.ble_eq] at sides
  simp only [Bool.and_eq_true, decide_eq_true_eq, not_and]
  omega

theorem not_letter_of_isDigit (h : isDigit c = true) : isLetter c = false := by
  have apart : avoidsDigits letterRanges = true := by decide +kernel
  unfold isLetter
  split_ifs with ascii
  · -- Below 128 there are no other digits than those of `Char.isDigit`.
    obtain ⟨first, member, low, high⟩ := exists_zeroDigit h
    have zeros : ∀ z ∈ zeroDigits, z = 48 ∨ 128 ≤ z := by decide
    obtain rfl : first = 48 := (zeros first member).resolve_right (by omega)
    exact Formula.isAlpha_of_isDigit (Char.isDigit_iff_toNat.mpr ⟨low, Nat.le_of_lt_succ high⟩)
  · exact any_eq_false_of_avoidsDigits apart h

theorem not_blank_of_isDigit (h : isDigit c = true) : isBlank c = false := by
  have apart : avoidsDigits blankRanges = true := by decide +kernel
  exact any_eq_false_of_avoidsDigits apart h

/-- The marks and signs of terms are no digits. -/
theorem ne_of_isDigit (h : isDigit c = true) {d : Char}
    (hd : d ∈ ['+', '-', '.', ',', '\'', '^', '=', '\n']) : c ≠ d := by
  rintro rfl
  have none : ['+', '-', '.', ',', '\'', '^', '=', '\n'].all (fun d => !isDigit d) = true := by
    decide +kernel
  simpa [h] using List.all_eq_true.mp none c hd

end Text

end Characters

/-- One or more decimal digits of any script. -/
structure DigitRun where
  chars : List Char
  chars_ne_nil : chars ≠ []
  digits : ∀ c ∈ chars, Text.isDigit c = true

/-- Digits, with places behind a point if there are any: `12`, `0.5`. -/
structure FixedSpelling where
  whole : DigitRun
  places : Option DigitRun

namespace FixedSpelling

def chars (n : FixedSpelling) : List Char :=
  n.whole.chars ++ match n.places with
    | none => []
    | some places => '.' :: places.chars

def decimal (negative : Bool) (n : FixedSpelling) : Decimal :=
  match n.places with
  | none => ⟨negative, Text.digitsValue n.whole.chars, 0⟩
  | some places =>
    ⟨negative, Text.digitsValue (n.whole.chars ++ places.chars), -places.chars.length⟩

end FixedSpelling

/-- An unsigned number of a term, which may start with its point: `12`, `0.5`, `.5`. -/
inductive NumberSpelling where
  | fixed (number : FixedSpelling)
  | fraction (places : DigitRun)

namespace NumberSpelling

def chars : NumberSpelling → List Char
  | .fixed number => number.chars
  | .fraction places => '.' :: places.chars

def decimal (negative : Bool) : NumberSpelling → Decimal
  | .fixed number => number.decimal negative
  | .fraction places => ⟨negative, Text.digitsValue places.chars, -places.chars.length⟩

end NumberSpelling

/-- One ASCII letter, then primes, points and commas, then an exponent if there is one. -/
structure LiteralSpelling where
  letter : Char
  isAlpha : letter.isAlpha = true
  marks : List Char
  isMark : ∀ c ∈ marks, c = '\'' ∨ c = '.' ∨ c = ','
  exponent : Option FixedSpelling

namespace LiteralSpelling

def exponentChars : Option FixedSpelling → List Char
  | none => []
  | some e => '^' :: e.chars

def chars (l : LiteralSpelling) : List Char := l.letter :: (l.marks ++ exponentChars l.exponent)

/-- Points and commas do not belong to the name; the exponent is 1 if none is written. -/
def literal (l : LiteralSpelling) : Literal where
  letter := String.ofList (l.letter :: l.marks.filter fun c => c != ',' && c != '.')
  exponent := match l.exponent with
    | none => .ofInt 1
    | some e => (e.decimal false).toBinary64

end LiteralSpelling

/-- A term without its sign. -/
inductive BodySpelling where
  | number (number : NumberSpelling)
  | power (number : Option NumberSpelling) (literal : LiteralSpelling)

namespace BodySpelling

/-- The characters before the literal part. -/
def numberChars : BodySpelling → List Char
  | .number n => n.chars
  | .power none _ => []
  | .power (some n) _ => n.chars

def literalChars : BodySpelling → List Char
  | .number _ => []
  | .power _ l => l.chars

def chars (b : BodySpelling) : List Char := b.numberChars ++ b.literalChars

def literal : BodySpelling → Option Literal
  | .number _ => none
  | .power _ l => some l.literal

/-- The coefficient under a sign; without a number it is 1 or -1. -/
def coefficient (negative : Bool) : BodySpelling → Binary64
  | .number n => (n.decimal negative).toBinary64
  | .power none _ => .ofInt (if negative then -1 else 1)
  | .power (some n) _ => (n.decimal negative).toBinary64

end BodySpelling

/-- A term; its sign may be missing, or else tells whether it is negative. -/
structure TermSpelling where
  sign : Option Bool
  body : BodySpelling

namespace TermSpelling

def signChars : Option Bool → List Char
  | none => []
  | some negative => [SignedText.sign negative]

def chars (t : TermSpelling) : List Char := signChars t.sign ++ t.body.chars

def term (t : TermSpelling) : Term := ⟨t.body.coefficient (t.sign.getD false), t.body.literal⟩

end TermSpelling

/-- One or more terms, each but the first with a sign. -/
structure SideSpelling where
  first : TermSpelling
  rest : List TermSpelling
  signed : ∀ t ∈ rest, t.sign.isSome = true

namespace SideSpelling

def terms (s : SideSpelling) : List TermSpelling := s.first :: s.rest

def chars (s : SideSpelling) : List Char := s.terms.flatMap TermSpelling.chars

def member (s : SideSpelling) : Member := ⟨s.terms.map TermSpelling.term⟩

end SideSpelling

section Numbers

theorem DigitRun.ext {d e : DigitRun} (h : d.chars = e.chars) : d = e := by
  obtain ⟨_, _, _⟩ := d
  obtain ⟨_, _, _⟩ := e
  cases h
  rfl

theorem DigitRun.exists_cons (d : DigitRun) :
    ∃ c rest, d.chars = c :: rest ∧ Text.isDigit c = true := by
  obtain ⟨c, rest, shape⟩ := List.exists_cons_of_ne_nil d.chars_ne_nil
  exact ⟨c, rest, shape, d.digits c (by simp [shape])⟩

theorem FixedSpelling.span_chars (n : FixedSpelling) :
    n.chars.takeWhile Text.isDigit = n.whole.chars ∧
      n.chars.dropWhile Text.isDigit = match n.places with
        | none => []
        | some places => '.' :: places.chars := by
  have point : Text.isDigit '.' = false := by decide +kernel
  refine Text.span_append _ _ n.whole.digits ?_
  cases n.places with
  | none => simp
  | some places => simp [point]

theorem FixedSpelling.chars_injective : Function.Injective FixedSpelling.chars := by
  intro m n h
  obtain ⟨wholeM, restM⟩ := m.span_chars
  obtain ⟨wholeN, restN⟩ := n.span_chars
  rw [h] at wholeM restM
  obtain ⟨whole, places⟩ := m
  obtain ⟨whole', places'⟩ := n
  obtain rfl : whole = whole' := DigitRun.ext (wholeM.symm.trans wholeN)
  have rest := restM.symm.trans restN
  cases places with
  | none =>
    cases places' with
    | none => rfl
    | some p => cases rest
  | some p =>
    cases places' with
    | none => cases rest
    | some q => rw [DigitRun.ext (List.cons.inj rest).2]

theorem FixedSpelling.exists_cons (n : FixedSpelling) :
    ∃ c rest, n.chars = c :: rest ∧ Text.isDigit c = true := by
  obtain ⟨c, rest, shape, digit⟩ := n.whole.exists_cons
  exact ⟨c, _, by rw [chars, shape, List.cons_append], digit⟩

theorem FixedSpelling.mem_chars {n : FixedSpelling} {c : Char} (h : c ∈ n.chars) :
    Text.isDigit c = true ∨ c = '.' := by
  rw [chars, List.mem_append] at h
  rcases h with h | h
  · exact .inl (n.whole.digits c h)
  · cases places : n.places with
    | none => simp [places] at h
    | some p =>
      rw [places] at h
      exact (List.mem_cons.mp h).symm.imp_left (p.digits c)

theorem NumberSpelling.mem_chars {n : NumberSpelling} {c : Char} (h : c ∈ n.chars) :
    Text.isDigit c = true ∨ c = '.' := by
  cases n with
  | fixed n => exact n.mem_chars h
  | fraction p => exact (List.mem_cons.mp h).symm.imp_left (p.digits c)

theorem NumberSpelling.chars_ne_nil (n : NumberSpelling) : n.chars ≠ [] := by
  cases n with
  | fixed n =>
    obtain ⟨c, rest, shape, -⟩ := n.exists_cons
    simp [chars, shape]
  | fraction p => simp [chars]

theorem NumberSpelling.chars_injective : Function.Injective NumberSpelling.chars := by
  have point : Text.isDigit '.' = false := by decide +kernel
  -- A number starts with a digit or with its point, and the first of them tells which.
  have apart : ∀ (n : FixedSpelling) (rest : List Char), n.chars ≠ '.' :: rest := by
    intro n rest h
    obtain ⟨c, cs, shape, digit⟩ := n.exists_cons
    rw [shape] at h
    rw [(List.cons.inj h).1, point] at digit
    cases digit
  intro m n h
  cases m with
  | fixed m =>
    cases n with
    | fixed n => rw [FixedSpelling.chars_injective h]
    | fraction q => exact absurd h (apart m _)
  | fraction p =>
    cases n with
    | fixed n => exact absurd h.symm (apart n _)
    | fraction q => rw [DigitRun.ext (List.cons.inj h).2]

end Numbers

section Terms

theorem LiteralSpelling.span_chars (l : LiteralSpelling) :
    l.chars.takeWhile (· != '^') = l.letter :: l.marks ∧
      l.chars.dropWhile (· != '^') = exponentChars l.exponent := by
  have before : ∀ c ∈ l.letter :: l.marks, (c != '^') = true := by
    intro c hc
    rw [bne_iff_ne]
    rintro rfl
    rcases List.mem_cons.mp hc with h | h
    · exact absurd l.isAlpha (by rw [← h]; decide)
    · rcases l.isMark _ h with h | h | h <;> exact absurd h (by decide)
  rw [chars, ← List.cons_append]
  refine Text.span_append _ _ before ?_
  cases l.exponent <;> simp [exponentChars]

theorem LiteralSpelling.chars_injective : Function.Injective LiteralSpelling.chars := by
  intro l m h
  obtain ⟨nameL, restL⟩ := l.span_chars
  obtain ⟨nameM, restM⟩ := m.span_chars
  rw [h] at nameL restL
  have name := nameL.symm.trans nameM
  have rest := restL.symm.trans restM
  obtain ⟨letter, _, marks, _, exponent⟩ := l
  obtain ⟨letter', _, marks', _, exponent'⟩ := m
  obtain rfl : letter = letter' := (List.cons.inj name).1
  obtain rfl : marks = marks' := (List.cons.inj name).2
  cases exponent with
  | none =>
    cases exponent' with
    | none => rfl
    | some e => cases rest
  | some e =>
    cases exponent' with
    | none => cases rest
    | some e' =>
      obtain rfl : e = e' := FixedSpelling.chars_injective (List.cons.inj rest).2
      rfl

namespace BodySpelling

variable {b : BodySpelling} {c : Char}

theorem mem_numberChars (h : c ∈ b.numberChars) : Text.isDigit c = true ∨ c = '.' := by
  cases b with
  | number n => exact n.mem_chars h
  | power n l =>
    cases n with
    | none => cases h
    | some n => exact n.mem_chars h

theorem not_letter_of_numberChars (h : c ∈ b.numberChars) : Text.isLetter c = false := by
  rcases mem_numberChars h with digit | rfl
  · exact Text.not_letter_of_isDigit digit
  · decide +kernel

theorem isLetter_head_literalChars (b : BodySpelling) :
    ∀ c ∈ b.literalChars.head?, Text.isLetter c = true := by
  intro c hc
  cases b with
  | number n => cases hc
  | power n l =>
    obtain rfl : l.letter = c := by simpa [literalChars, LiteralSpelling.chars] using hc
    have code := Formula.isAlpha_iff_toNat.mp l.isAlpha
    rw [Text.isLetter_eq_isAlpha (by omega), l.isAlpha]

theorem span_chars (b : BodySpelling) :
    b.chars.takeWhile (fun c => !Text.isLetter c) = b.numberChars ∧
      b.chars.dropWhile (fun c => !Text.isLetter c) = b.literalChars := by
  refine Text.span_append _ _ (fun c hc => ?_) (fun c hc => ?_)
  · rw [not_letter_of_numberChars hc, Bool.not_false]
  · rw [b.isLetter_head_literalChars c hc, Bool.not_true]

theorem chars_injective : Function.Injective BodySpelling.chars := by
  intro a b h
  obtain ⟨numberA, literalA⟩ := a.span_chars
  obtain ⟨numberB, literalB⟩ := b.span_chars
  rw [h] at numberA literalA
  have number := numberA.symm.trans numberB
  have literal := literalA.symm.trans literalB
  cases a with
  | number n =>
    cases b with
    | number n' => rw [NumberSpelling.chars_injective number]
    | power n' l' => cases literal
  | power n l =>
    cases b with
    | number n' => cases literal
    | power n' l' =>
      obtain rfl : l = l' := LiteralSpelling.chars_injective literal
      cases n with
      | none =>
        cases n' with
        | none => rfl
        | some n' => exact absurd number.symm n'.chars_ne_nil
      | some n =>
        cases n' with
        | none => exact absurd number n.chars_ne_nil
        | some n' => rw [NumberSpelling.chars_injective number]

theorem mem_literalChars (h : c ∈ b.literalChars) :
    c.isAlpha = true ∨ Text.isDigit c = true ∨ c ∈ ['\'', '.', ',', '^'] := by
  cases b with
  | number n => cases h
  | power n l =>
    rcases List.mem_cons.mp h with rfl | h
    · exact .inl l.isAlpha
    rcases List.mem_append.mp h with h | h
    · refine .inr (.inr ?_)
      rcases l.isMark c h with rfl | rfl | rfl <;> decide
    · cases exponent : l.exponent with
      | none =>
        rw [exponent] at h
        cases h
      | some e =>
        rw [exponent] at h
        rcases List.mem_cons.mp h with rfl | h
        · exact .inr (.inr (by decide))
        rcases e.mem_chars h with digit | rfl
        · exact .inr (.inl digit)
        · exact .inr (.inr (by decide))

theorem mem_chars (h : c ∈ b.chars) :
    c.isAlpha = true ∨ Text.isDigit c = true ∨ c ∈ ['\'', '.', ',', '^'] := by
  rcases List.mem_append.mp h with h | h
  · rcases mem_numberChars h with digit | rfl
    · exact .inr (.inl digit)
    · exact .inr (.inr (by decide))
  · exact mem_literalChars h

theorem not_blank_of_mem (h : c ∈ b.chars) : Text.isBlank c = false := by
  have marks : ['\'', '.', ',', '^'].all (fun d => !Text.isBlank d) = true := by decide
  rcases mem_chars h with alpha | digit | mark
  · have code := Formula.isAlpha_iff_toNat.mp alpha
    simp [Text.isBlank, Text.blankRanges]
    omega
  · exact Text.not_blank_of_isDigit digit
  · simpa using List.all_eq_true.mp marks c mark

theorem ne_of_mem_chars (h : c ∈ b.chars) {d : Char} (hd : d ∈ ['+', '-', '=', '\n']) : c ≠ d := by
  rintro rfl
  have others : ['+', '-', '=', '\n'].all (fun d =>
      !d.isAlpha && decide (d ∉ ['\'', '.', ',', '^'])) = true := by decide
  have other := List.all_eq_true.mp others c hd
  rcases mem_chars h with alpha | digit | mark
  · simp [alpha] at other
  · exact Text.ne_of_isDigit digit (by simp only [List.mem_cons] at hd ⊢; tauto) rfl
  · simp [mark] at other

theorem chars_ne_nil (b : BodySpelling) : b.chars ≠ [] := by
  cases b with
  | number n => exact List.append_ne_nil_of_left_ne_nil n.chars_ne_nil _
  | power n l => exact List.append_ne_nil_of_right_ne_nil _ (List.cons_ne_nil _ _)

theorem not_sign_of_mem (h : c ∈ b.chars) : isSign c = false := by
  simp [isSign, ne_of_mem_chars h (d := '+') (by simp), ne_of_mem_chars h (d := '-') (by simp)]

end BodySpelling

namespace TermSpelling

theorem chars_ne_nil (t : TermSpelling) : t.chars ≠ [] :=
  List.append_ne_nil_of_right_ne_nil _ t.body.chars_ne_nil

theorem isSign_sign (negative : Bool) : isSign (SignedText.sign negative) = true := by
  cases negative <;> rfl

theorem sign_injective : Function.Injective SignedText.sign := by decide

theorem chars_injective : Function.Injective TermSpelling.chars := by
  -- A sign is no first character of a body.
  have apart : ∀ (b : BodySpelling) (negative : Bool) (rest : List Char),
      b.chars ≠ SignedText.sign negative :: rest := by
    intro b negative rest h
    have unsigned := b.not_sign_of_mem (c := SignedText.sign negative) (by rw [h]; simp)
    rw [isSign_sign] at unsigned
    cases unsigned
  rintro ⟨sign, body⟩ ⟨sign', body'⟩ h
  cases sign with
  | none =>
    cases sign' with
    | none =>
      obtain rfl : body = body' := BodySpelling.chars_injective h
      rfl
    | some s => exact absurd h (apart body _ _)
  | some s =>
    cases sign' with
    | none => exact absurd h.symm (apart body' _ _)
    | some s' =>
      obtain ⟨first, rest⟩ := List.cons.inj h
      obtain rfl : s = s' := sign_injective first
      obtain rfl : body = body' := BodySpelling.chars_injective rest
      rfl

end TermSpelling

end Terms

end FunctionStudy
