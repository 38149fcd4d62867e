import FunctionStudy.Chunks
import FunctionStudy.Proofs.Decimal.Numeral
import FunctionStudy.Proofs.Formula.Meaning

/-! Reading sums of written terms. The text reads as the sum of their values, unless a letter behind
a numeral is taken for a part of that number, as only `e`, `E`, `j` and `J` can be. -/

namespace FunctionStudy

/-- A term as it is written, without its sign. Exponent 1 is not written. -/
inductive TermText where
  | constant (number : Numeral)
  | power (number : Option Numeral) (letter : Char) (exponent : ℕ)

namespace TermText

def exponentChars (e : ℕ) : List Char := if e = 1 then [] else '^' :: Nat.toDigits 10 e

/-- The characters of an optional numeral; a coefficient of 1 is not written. -/
def numberChars : Option Numeral → List Char
  | none => []
  | some n => n.chars

def chars : TermText → List Char
  | .constant n => n.chars
  | .power n l e => numberChars n ++ l :: exponentChars e

def exponentTokens (e : ℕ) : List Formula.Token := if e = 1 then [] else [.power, .number e]

def numberTokens : Option Numeral → List Formula.Token
  | none => []
  | some n => [.number (n.decimal false).toRat]

def tokens : TermText → List Formula.Token
  | .constant n => [.number (n.decimal false).toRat]
  | .power n _ e => numberTokens n ++ .symbol .unknown :: exponentTokens e

def numberValue : Option Numeral → ℚ
  | none => 1
  | some n => (n.decimal false).toRat

def value (x : ℚ) : TermText → ℚ
  | .constant n => (n.decimal false).toRat
  | .power n _ e => numberValue n * x ^ e

def HasLetter (l : Char) : TermText → Prop
  | .constant _ => True
  | .power _ m _ => m = l

/-- A numeral of the term ends where it should when the term stands in front of `after`. -/
def IsSeparated (after : List Char) : TermText → Prop
  | .constant _ => True
  | .power none _ _ => True
  | .power (some _) l e =>
    Numeral.EndsBefore (l :: (exponentChars e ++ after)) ∧ l ≠ 'j' ∧ l ≠ 'J'

end TermText

/-- A term with its sign. -/
structure SignedText where
  negative : Bool
  body : TermText

namespace SignedText

def sign (negative : Bool) : Char := if negative then '-' else '+'

def signToken (negative : Bool) : Formula.Token := if negative then .minus else .plus

def chars (s : SignedText) : List Char := sign s.negative :: s.body.chars

def tokens (s : SignedText) : List Formula.Token := signToken s.negative :: s.body.tokens

def value (x : ℚ) (s : SignedText) : ℚ := if s.negative then -s.body.value x else s.body.value x

/-- The first term of a sum, where a plus is not written. -/
def firstChars (s : SignedText) : List Char :=
  if s.negative then '-' :: s.body.chars else s.body.chars

def firstTokens (s : SignedText) : List Formula.Token :=
  if s.negative then .minus :: s.body.tokens else s.body.tokens

end SignedText

/-- The sum of written terms; an empty one is written 0. -/
def sumChars : List SignedText → List Char
  | [] => ['0']
  | s :: rest => s.firstChars ++ rest.flatMap SignedText.chars

def sumTokens : List SignedText → List Formula.Token
  | [] => [.number 0]
  | s :: rest => s.firstTokens ++ rest.flatMap SignedText.tokens

def sumValue (terms : List SignedText) (x : ℚ) : ℚ := (terms.map (SignedText.value x)).sum

def AreSeparated : List SignedText → Prop
  | [] => True
  | s :: rest => s.body.IsSeparated (rest.flatMap SignedText.chars) ∧ AreSeparated rest

namespace Formula

/-- The text scans to the tokens with any fuel that is enough for its length. -/
def Scans (unknown : String) (cs : List Char) (ts : List Token) : Prop :=
  ∀ fuel, cs.length ≤ fuel → scan unknown fuel cs = some ts

variable {unknown : String} {cs rest : List Char} {ts : List Token}

theorem scans_nil : Scans unknown [] [] := by
  intro fuel _
  cases fuel <;> rfl

theorem scans_punctuation {c : Char} {t : Token} (hc : punctuation? c = some t)
    (h : Scans unknown cs ts) : Scans unknown (c :: cs) (t :: ts) := by
  intro fuel enough
  cases fuel with
  | zero => cases enough
  | succ fuel => simp [scan, hc, h fuel (Nat.le_of_succ_le_succ enough)]

theorem punctuation?_of_isAlpha {c : Char} (hc : c.isAlpha = true) : punctuation? c = none := by
  unfold punctuation?
  split_ifs with h h h h h <;> first | rfl | (subst h; exact absurd hc (by decide))

theorem punctuation?_of_isDigit {c : Char} (hc : c.isDigit = true) : punctuation? c = none := by
  unfold punctuation?
  split_ifs with h h h h h <;> first | rfl | (subst h; exact absurd hc (by decide))

theorem isAlpha_iff_toNat {c : Char} :
    c.isAlpha = true ↔ (65 ≤ c.toNat ∧ c.toNat ≤ 90) ∨ (97 ≤ c.toNat ∧ c.toNat ≤ 122) := by
  have shape : c.isAlpha = (decide ('A'.val ≤ c.val ∧ c.val ≤ 'Z'.val) ||
      (decide ('a'.val ≤ c.val) && decide (c.val ≤ 'z'.val))) := rfl
  have code : c.val.toNat = c.toNat := rfl
  rw [shape]
  simp only [UInt32.le_iff_toNat_le, Bool.or_eq_true, Bool.and_eq_true, decide_eq_true_eq, code]
  simp

theorem isAlpha_of_isDigit {c : Char} (hc : c.isDigit = true) : c.isAlpha = false := by
  have bounds := Char.isDigit_iff_toNat.mp hc
  have zero : '0'.toNat = 48 := rfl
  have nine : '9'.toNat = 57 := rfl
  rw [← Bool.not_eq_true, isAlpha_iff_toNat]
  omega

theorem scans_unknown {l : Char} (hl : l.isAlpha = true) (hr : ∀ c ∈ rest.head?, c.isAlpha = false)
    (h : Scans (String.singleton l) rest ts) :
    Scans (String.singleton l) (l :: rest) (.symbol .unknown :: ts) := by
  intro fuel enough
  cases fuel with
  | zero => cases enough
  | succ fuel =>
    have space : l ≠ ' ' := by rintro rfl; exact absurd hl (by decide)
    obtain ⟨ht, hd⟩ := Text.span_append [] _ (by simp) hr
    rw [List.nil_append] at ht hd
    have name : ofLetters? (String.singleton l) [l] = some [.symbol .unknown] := by
      simp [ofLetters?, Symbol.ofChar?]
    simp [scan, punctuation?_of_isAlpha hl, space, hl, ht, hd, name,
      h fuel (Nat.le_of_succ_le_succ enough)]

theorem scans_numeral (n : Numeral) (ends : Numeral.EndsBefore rest)
    (imaginary : ∀ c ∈ rest.head?, c ≠ 'j' ∧ c ≠ 'J') (h : Scans unknown rest ts) :
    Scans unknown (n.chars ++ rest) (.number (n.decimal false).toRat :: ts) := by
  intro fuel enough
  obtain ⟨c, others, hc, digit⟩ := n.exists_chars_cons
  have read := n.number?_chars ends
  rw [hc, List.cons_append] at enough read ⊢
  cases fuel with
  | zero => cases enough
  | succ fuel =>
    have space : c ≠ ' ' := by rintro rfl; exact absurd digit (by decide)
    have fits : rest.length ≤ fuel := by
      rw [List.length_cons, List.length_append] at enough
      omega
    simp only [scan, punctuation?_of_isDigit digit, space, if_false, isAlpha_of_isDigit digit,
      Bool.false_eq_true, read, Option.bind_eq_bind, Option.bind_some]
    split
    · exact absurd rfl (imaginary 'j' (by simp)).1
    · exact absurd rfl (imaginary 'J' (by simp)).2
    · simp [h fuel fits]

end Formula

section Separation

open Formula (scale)

variable {after : List Char}

theorem Numeral.endsBefore_nil : EndsBefore [] := ⟨by simp, rfl⟩

theorem Numeral.endsBefore_cons {c : Char} (digit : c.isDigit = false) (point : c ≠ '.')
    (mark : c ≠ 'e' ∧ c ≠ 'E') : EndsBefore (c :: after) :=
  ⟨by simp [digit, point], by simp [scale, mark]⟩

theorem Numeral.endsBefore_of_sign (h : ∀ c ∈ after.head?, isSign c = true) :
    EndsBefore after := by
  cases after with
  | nil => exact endsBefore_nil
  | cons c after =>
    have sign : c = '+' ∨ c = '-' := by simpa [isSign] using h c (by simp)
    rcases sign with rfl | rfl <;>
      exact endsBefore_cons (by decide) (by decide) (by decide)

theorem isDigit_of_isAlpha {c : Char} (hc : c.isAlpha = true) : c.isDigit = false := by
  by_contra digit
  rw [Formula.isAlpha_of_isDigit (by simpa using digit)] at hc
  cases hc

/-- The letters that a numeral in front of them can take for a part of itself. -/
def numeralLetters : List Char := ['e', 'E', 'j', 'J']

theorem TermText.isSeparated_of_letter {t : TermText} {l : Char} (hl : l.isAlpha = true)
    (plain : l ∉ numeralLetters) (ht : t.HasLetter l) : t.IsSeparated after := by
  simp only [numeralLetters, List.mem_cons, List.not_mem_nil, or_false, not_or] at plain
  obtain ⟨lower, upper, small, large⟩ := plain
  cases t with
  | constant n => trivial
  | power n m e =>
    obtain rfl : m = l := ht
    cases n with
    | none => trivial
    | some n =>
      have point : m ≠ '.' := by rintro rfl; exact absurd hl (by decide)
      exact ⟨Numeral.endsBefore_cons (isDigit_of_isAlpha hl) point ⟨lower, upper⟩, small, large⟩

theorem areSeparated_of_letter {ts : List SignedText} {l : Char} (hl : l.isAlpha = true)
    (plain : l ∉ numeralLetters) (h : ∀ s ∈ ts, s.body.HasLetter l) : AreSeparated ts := by
  induction ts with
  | nil => trivial
  | cons s rest ih =>
    exact ⟨TermText.isSeparated_of_letter hl plain (h s (by simp)),
      ih fun t ht => h t (by simp [ht])⟩

end Separation

namespace Formula

variable {l : Char} {after : List Char} {ts : List Token}

theorem scans_exponent (e : ℕ) (breaks : ∀ c ∈ after.head?, isSign c = true)
    (h : Scans (String.singleton l) after ts) :
    Scans (String.singleton l) (TermText.exponentChars e ++ after)
      (TermText.exponentTokens e ++ ts) := by
  unfold TermText.exponentChars TermText.exponentTokens
  split_ifs with one
  · exact h
  · rw [← Numeral.chars_ofNat, List.cons_append, List.cons_append]
    apply scans_punctuation rfl
    rw [List.cons_append, List.nil_append, ← Numeral.toRat_decimal_ofNat]
    refine scans_numeral _ (Numeral.endsBefore_of_sign breaks) (fun c hc => ?_) h
    have sign := breaks c hc
    constructor <;> rintro rfl <;> exact absurd sign (by decide)

theorem head?_exponentChars (e : ℕ) (breaks : ∀ c ∈ after.head?, isSign c = true) :
    ∀ c ∈ (TermText.exponentChars e ++ after).head?, c.isAlpha = false := by
  intro c hc
  unfold TermText.exponentChars at hc
  split_ifs at hc with one
  · have sign : c = '+' ∨ c = '-' := by simpa [isSign] using breaks c hc
    rcases sign with rfl | rfl <;> decide
  · obtain rfl : '^' = c := by simpa using hc
    decide

theorem scans_term (hl : l.isAlpha = true) {t : TermText} (ht : t.HasLetter l)
    (sep : t.IsSeparated after) (breaks : ∀ c ∈ after.head?, isSign c = true)
    (h : Scans (String.singleton l) after ts) :
    Scans (String.singleton l) (t.chars ++ after) (t.tokens ++ ts) := by
  cases t with
  | constant n =>
    refine scans_numeral n (Numeral.endsBefore_of_sign breaks) (fun c hc => ?_) h
    have sign := breaks c hc
    constructor <;> rintro rfl <;> exact absurd sign (by decide)
  | power n m e =>
    obtain rfl : m = l := ht
    have power := scans_unknown hl (head?_exponentChars e breaks) (scans_exponent e breaks h)
    simp only [TermText.chars, TermText.tokens, List.append_assoc, List.cons_append]
    cases n with
    | none => exact power
    | some n =>
      obtain ⟨ends, small, large⟩ := sep
      exact scans_numeral n ends (by simp [small, large]) power

theorem punctuation?_sign (negative : Bool) :
    punctuation? (SignedText.sign negative) = some (SignedText.signToken negative) := by
  cases negative <;> rfl

theorem head?_flatMap_chars (rest : List SignedText) :
    ∀ c ∈ (rest.flatMap SignedText.chars).head?, isSign c = true := by
  intro c hc
  cases rest with
  | nil => simp at hc
  | cons s rest =>
    obtain rfl : SignedText.sign s.negative = c := by simpa [SignedText.chars] using hc
    cases s.negative <;> rfl

theorem scans_signed (hl : l.isAlpha = true) {rest : List SignedText}
    (letters : ∀ s ∈ rest, s.body.HasLetter l) (sep : AreSeparated rest) :
    Scans (String.singleton l) (rest.flatMap SignedText.chars)
      (rest.flatMap SignedText.tokens) := by
  induction rest with
  | nil => exact scans_nil
  | cons s rest ih =>
    obtain ⟨first, others⟩ := sep
    simp only [List.flatMap_cons, SignedText.chars, SignedText.tokens, List.cons_append]
    apply scans_punctuation (punctuation?_sign _)
    exact scans_term hl (letters s (by simp)) first (head?_flatMap_chars rest)
      (ih (fun t ht => letters t (by simp [ht])) others)

theorem scans_sum (hl : l.isAlpha = true) {terms : List SignedText}
    (letters : ∀ s ∈ terms, s.body.HasLetter l) (sep : AreSeparated terms) :
    Scans (String.singleton l) (sumChars terms) (sumTokens terms) := by
  cases terms with
  | nil =>
    have zero : Scans (String.singleton l) ((Numeral.ofNat 0).chars ++ [])
        [.number ((Numeral.ofNat 0).decimal false).toRat] :=
      scans_numeral _ Numeral.endsBefore_nil (by simp) scans_nil
    rwa [Numeral.toRat_decimal_ofNat, Numeral.chars_ofNat, List.append_nil] at zero
  | cons s rest =>
    obtain ⟨first, others⟩ := sep
    have body := scans_term hl (letters s (by simp)) first (head?_flatMap_chars rest)
      (scans_signed hl (fun t ht => letters t (by simp [ht])) others)
    simp only [sumChars, sumTokens, SignedText.firstChars, SignedText.firstTokens]
    cases s.negative with
    | true => exact scans_punctuation rfl body
    | false => exact body

section Readers

variable {group : Reader} {rest : List Token} {fuel : ℕ}

/-- What may follow a term: nothing, or the sign of the next term. -/
def StopsTerm (rest : List Token) : Prop := ∀ t ∈ rest.head?, t = .plus ∨ t = .minus

theorem readPower_atom {t : Token} {f : Formula} (ht : readAtom group (t :: rest) = some (f, rest))
    (hr : ∀ u ∈ rest.head?, u ≠ .power) : readPower group (fuel + 1) (t :: rest) = some (f, rest) := by
  simp only [readPower, ht, Option.bind_eq_bind, Option.bind_some]
  split
  · exact absurd rfl (hr _ (by simp))
  · rfl

theorem readProduct_last {tokens : List Token} {f : Formula}
    (h : readPower group (fuel + 1) tokens = some (f, rest)) (stops : StopsTerm rest) :
    readProduct group (fuel + 1) tokens = some (f, rest) := by
  have last : startsFactor rest = false := by
    cases rest with
    | nil => rfl
    | cons t rest => rcases stops t (by simp) with rfl | rfl <;> rfl
  simp [readProduct, h, last]

theorem readProduct_next {tokens others : List Token} {f g : Formula}
    (h : readPower group (fuel + 1) tokens = some (f, others)) (goesOn : startsFactor others = true)
    (hg : readProduct group fuel others = some (g, rest)) :
    readProduct group (fuel + 1) tokens = some (.product f g, rest) := by
  rw [readProduct]
  simp [h, goesOn, hg]

theorem readSum_last {tokens body : List Token} {negative : Bool} {f : Formula}
    (sign : signs tokens = (negative, body))
    (h : readProduct group (fuel + 1) body = some (f, [])) :
    readSum group (fuel + 1) tokens = some (signed negative f, []) := by
  rw [readSum]
  simp [sign, h]

theorem readSum_next {tokens body others : List Token} {negative : Bool} {f g : Formula}
    (sign : signs tokens = (negative, body))
    (h : readProduct group (fuel + 1) body = some (f, others)) (goesOn : others ≠ [])
    (stops : StopsTerm others) (hg : readSum group fuel others = some (g, rest)) :
    readSum group (fuel + 1) tokens = some (.sum (signed negative f) g, rest) := by
  obtain ⟨t, ts, rfl⟩ := List.exists_cons_of_ne_nil goesOn
  rw [readSum]
  rcases stops t (by simp) with rfl | rfl <;> simp [sign, h, hg]

theorem StopsTerm.ne_power (stops : StopsTerm rest) : ∀ u ∈ rest.head?, u ≠ .power := by
  intro u hu same
  rcases stops u hu with h | h <;> rw [h] at same <;> cases same

theorem readPower_unknown (group : Reader) (fuel e : ℕ) (stops : StopsTerm rest)
    (enough : (TermText.exponentTokens e).length < fuel) :
    ∃ f, readPower group fuel (.symbol .unknown :: (TermText.exponentTokens e ++ rest)) =
      some (f, rest) ∧ Means f fun x => x ^ e := by
  unfold TermText.exponentTokens at enough ⊢
  split_ifs at enough ⊢ with one
  · obtain ⟨fuel, rfl⟩ := Nat.exists_eq_add_of_lt enough
    refine ⟨.symbol .unknown, ?_, means_unknown.congr fun x => by rw [one, pow_one]⟩
    rw [List.nil_append, List.length_nil, Nat.zero_add]
    exact readPower_atom rfl stops.ne_power
  · obtain ⟨fuel, rfl⟩ := Nat.exists_eq_add_of_lt enough
    refine ⟨.power (.symbol .unknown) (.number e), ?_, means_unknown_power e⟩
    have exponent : readPower group (fuel + 2) (.number e :: rest) = some (.number e, rest) :=
      readPower_atom rfl stops.ne_power
    have shape : [Token.power, .number (e : ℚ)].length + fuel + 1 = fuel + 2 + 1 := by
      rw [List.length_cons, List.length_singleton, Nat.add_comm 2 fuel]
    rw [shape, readPower]
    simp [readAtom, signs, signed, exponent]

theorem length_tokens_pos (t : TermText) : 0 < t.tokens.length := by
  cases t with
  | constant n => simp [TermText.tokens]
  | power n l e => simp [TermText.tokens]

theorem readProduct_term (group : Reader) (fuel : ℕ) (t : TermText) (stops : StopsTerm rest)
    (enough : t.tokens.length ≤ fuel) :
    ∃ f, readProduct group fuel (t.tokens ++ rest) = some (f, rest) ∧
      Means f fun x => t.value x := by
  obtain ⟨fuel, rfl⟩ : ∃ k, fuel = k + 1 :=
    Nat.exists_eq_succ_of_ne_zero (by have := length_tokens_pos t; omega)
  cases t with
  | constant n =>
    exact ⟨_, readProduct_last (readPower_atom rfl stops.ne_power) stops, means_number _⟩
  | power n l e =>
    cases n with
    | none =>
      simp only [TermText.tokens, TermText.numberTokens, List.nil_append, List.length_cons] at enough
      obtain ⟨f, read, means⟩ := readPower_unknown group (fuel + 1) e stops
        (by omega)
      exact ⟨f, readProduct_last read stops, means.congr fun x => (one_mul _).symm⟩
    | some n =>
      simp only [TermText.tokens, TermText.numberTokens, List.cons_append, List.nil_append,
        List.length_cons] at enough ⊢
      obtain ⟨fuel, rfl⟩ : ∃ k, fuel = k + 1 := Nat.exists_eq_succ_of_ne_zero (by omega)
      obtain ⟨f, read, means⟩ := readPower_unknown group (fuel + 1) e stops
        (by omega)
      have first : readPower group (fuel + 1 + 1) (.number (n.decimal false).toRat ::
          .symbol .unknown :: (TermText.exponentTokens e ++ rest)) = some (.number (n.decimal false).toRat,
            .symbol .unknown :: (TermText.exponentTokens e ++ rest)) :=
        readPower_atom rfl (by simp)
      have others := readProduct_last read stops
      exact ⟨_, readProduct_next first rfl others, (means_number _).product means⟩

theorem stopsTerm_flatMap (rest : List SignedText) : StopsTerm (rest.flatMap SignedText.tokens) := by
  intro t ht
  cases rest with
  | nil => simp at ht
  | cons s rest =>
    obtain rfl : SignedText.signToken s.negative = t := by simpa [SignedText.tokens] using ht
    cases s.negative <;> simp [SignedText.signToken]

theorem signs_tokens (t : TermText) (rest : List Token) :
    signs (t.tokens ++ rest) = (false, t.tokens ++ rest) := by
  cases t with
  | constant n => rfl
  | power n l e => cases n <;> rfl

theorem Means.signed {f : Formula} {u : ℚ → ℚ} (h : Means f u) (negative : Bool) :
    Means (Formula.signed negative f) fun x => if negative then -u x else u x := by
  cases negative with
  | true => exact h.negate
  | false => exact h

/-- Each round takes the sign and the term, and leaves the rest of the sum. -/
theorem readSum_terms (group : Reader) (fuel : ℕ) (s : SignedText) (others : List SignedText) {tokens : List Token}
    (sign : signs tokens = (s.negative, s.body.tokens ++ others.flatMap SignedText.tokens))
    (enough : (s.body.tokens ++ others.flatMap SignedText.tokens).length ≤ fuel) :
    ∃ f, readSum group fuel tokens = some (f, []) ∧ Means f (sumValue (s :: others)) := by
  induction others generalizing s tokens fuel with
  | nil =>
    rw [List.flatMap_nil, List.append_nil] at sign enough
    have stops : StopsTerm [] := by simp [StopsTerm]
    obtain ⟨f, read, means⟩ := readProduct_term group fuel s.body stops enough
    obtain ⟨fuel, rfl⟩ : ∃ k, fuel = k + 1 :=
      Nat.exists_eq_succ_of_ne_zero (by have := length_tokens_pos s.body; omega)
    rw [List.append_nil] at read
    refine ⟨_, readSum_last sign read, ?_⟩
    exact (means.signed s.negative).congr fun x => by simp [sumValue, SignedText.value]
  | cons t others ih =>
    obtain ⟨f, read, means⟩ := readProduct_term group fuel s.body
      (stopsTerm_flatMap (t :: others)) (by rw [List.length_append] at enough; omega)
    obtain ⟨fuel, rfl⟩ : ∃ k, fuel = k + 1 :=
      Nat.exists_eq_succ_of_ne_zero (by
        have := length_tokens_pos s.body
        rw [List.length_append] at enough
        omega)
    have next : signs ((t :: others).flatMap SignedText.tokens) =
        (t.negative, t.body.tokens ++ others.flatMap SignedText.tokens) := by
      rw [List.flatMap_cons, SignedText.tokens, List.cons_append]
      cases t.negative <;> simp [SignedText.signToken, signs, signs_tokens]
    obtain ⟨g, readRest, meansRest⟩ := ih fuel t next (by
      have := length_tokens_pos s.body
      simp only [List.length_append, List.flatMap_cons, SignedText.tokens, List.length_cons]
        at enough ⊢
      omega)
    refine ⟨_, readSum_next sign read (by simp [SignedText.tokens]) (stopsTerm_flatMap _) readRest, ?_⟩
    exact ((means.signed s.negative).sum meansRest).congr fun x => by
      simp [sumValue, SignedText.value]

end Readers

/-- The text of a sum of written terms means the sum of their values. -/
theorem parse?_sumChars {l : Char} (hl : l.isAlpha = true) {terms : List SignedText}
    (letters : ∀ s ∈ terms, s.body.HasLetter l) (sep : AreSeparated terms) :
    ∃ f, parse? (String.singleton l) (String.ofList (sumChars terms)) = some f ∧
      Means f (sumValue terms) := by
  have scanned := scans_sum hl letters sep
  have tokens : tokens? (String.singleton l) (String.ofList (sumChars terms)) =
      some (sumTokens terms) := by
    rw [tokens?, String.toList_ofList]
    exact scanned _ (by simp)
  cases terms with
  | nil =>
    refine ⟨.number 0, by simp [parse?, tokens, sumTokens]; rfl, ?_⟩
    exact (means_number 0).congr fun x => by simp [sumValue]
  | cons s rest =>
    have sign : signs (sumTokens (s :: rest)) =
        (s.negative, s.body.tokens ++ rest.flatMap SignedText.tokens) := by
      rw [sumTokens, SignedText.firstTokens]
      cases s.negative <;> simp [signs, signs_tokens]
    obtain ⟨f, read, means⟩ := readSum_terms (readGroup (sumTokens (s :: rest)).length)
      (sumTokens (s :: rest)).length s rest sign (by
        rw [sumTokens, SignedText.firstTokens]
        cases s.negative <;> simp)
    exact ⟨f, by simp [parse?, tokens, read], means⟩

/-- The exact value of the text of a sum at any rational is the sum of the terms' values. -/
theorem compile_sumChars {l : Char} (hl : l.isAlpha = true) {terms : List SignedText}
    (letters : ∀ s ∈ terms, s.body.HasLetter l) (sep : AreSeparated terms) :
    ∃ c, compile (String.ofList (sumChars terms)) (String.singleton l) = .ok c ∧
      ∀ x, c.valueAt x = .rational (sumValue terms x) := by
  obtain ⟨f, read, means⟩ := parse?_sumChars hl letters sep
  exact compile_of_means read means

end Formula
end FunctionStudy
