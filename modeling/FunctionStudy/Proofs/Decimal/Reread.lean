import FunctionStudy.Proofs.Decimal.PlainText

/-! Reading plain text again. The number that the plain text of a double is read as. It is the
nearest double to what the numeral says; that it is the double that was written is another question,
which tiny numbers fail. -/

namespace FunctionStudy

open Decimal (plainText)

section Runs

theorem Text.trim_eq_self {isDropped : Char → Bool} {cs : List Char}
    (h : ∀ c ∈ cs, isDropped c = false) : trim isDropped cs = cs := by
  have none : ∀ ds : List Char, (∀ c ∈ ds, isDropped c = false) → ds.dropWhile isDropped = ds := by
    intro ds hd
    cases ds with
    | nil => rfl
    | cons d ds => rw [List.dropWhile_cons_of_neg (by simp [hd d (by simp)])]
  rw [trim, none cs h, none cs.reverse fun c hc => h c (List.mem_reverse.mp hc), List.reverse_reverse]

theorem Decimal.joinDigits?_eq_self {cs : List Char} (h : ∀ c ∈ cs, Text.isDigit c = true) :
    joinDigits? cs = some cs := by
  have underscore : Text.isDigit '_' ≠ true := by decide +kernel
  fun_induction joinDigits? cs with
  | case1 => rfl
  | case2 => rfl
  | case3 c other => exact absurd (h c (by simp)) other
  | case4 => exact absurd (h '_' (by simp)) underscore
  | case5 => exact absurd (h '_' (by simp)) underscore
  | case6 c rest _ _ _ ih =>
    rw [ih fun d hd => h d (by simp [hd])]
    rfl
  | case7 c rest _ _ other => exact absurd (h c (by simp)) other

end Runs

namespace Numeral

variable (n : Numeral)

theorem ofFree?_chars (negative : Bool) :
    Decimal.ofFree? negative n.chars = some (n.decimal negative) := by
  have unmarked : ∀ c ∈ n.chars, (!(c == 'e' || c == 'E')) = true := by
    intro c hc
    rcases n.mem_chars hc with digit | rfl
    · have small : c ≠ 'e' := by rintro rfl; exact absurd digit (by decide)
      have large : c ≠ 'E' := by rintro rfl; exact absurd digit (by decide)
      simp [small, large]
    · rfl
  have whole : ∀ c ∈ n.whole, (c != '.') = true := by
    intro c hc
    rw [bne_iff_ne]
    rintro rfl
    exact absurd (n.whole_digits '.' hc) (by decide)
  obtain ⟨significand, none⟩ := Text.span_append _ [] unmarked (by simp)
  rw [List.append_nil] at significand none
  have parts : n.chars.takeWhile (· != '.') = n.whole ∧
      (n.chars.dropWhile (· != '.')).drop 1 = n.places := by
    rw [chars]
    split_ifs with empty
    · obtain ⟨first, rest⟩ := Text.span_append n.whole [] whole (by simp)
      exact ⟨first, by rw [rest, empty]; rfl⟩
    · obtain ⟨first, rest⟩ := Text.span_append n.whole ('.' :: n.places) whole (by simp)
      exact ⟨first, by rw [rest]; rfl⟩
  have wholeDigits := Decimal.joinDigits?_eq_self fun c hc => Text.isDigit_of_ascii (n.whole_digits c hc)
  have placesDigits := Decimal.joinDigits?_eq_self fun c hc => Text.isDigit_of_ascii (n.places_digits c hc)
  simp only [Decimal.ofFree?, significand, none, parts, wholeDigits, placesDigits]
  simp [decimal, n.whole_ne_nil]

theorem toLower_of_isDigit {c : Char} (h : c.isDigit = true) : c.toLower = c := by
  have bound : c.toNat ≤ 57 := (Char.isDigit_iff_toNat.mp h).2
  refine dif_neg fun upper => ?_
  have low : 65 ≤ c.toNat := UInt32.le_iff_toNat_le.mp upper.1
  omega

theorem readDouble?_signedChars {text : String} {negative : Bool}
    (h : text.toList = n.signedChars negative) :
    Decimal.readDouble? text = some (n.decimal negative).toBinary64 := by
  have unpadded : ∀ c ∈ text.toList, Text.isPadding c = false := by
    have code : ∀ c ∈ text.toList, 45 ≤ c.toNat ∧ c.toNat ≤ 57 := by
      intro c hc
      rw [h, signedChars] at hc
      have body : c ∈ n.chars → 45 ≤ c.toNat ∧ c.toNat ≤ 57 := by
        intro hc
        rcases n.mem_chars hc with digit | rfl
        · have bounds := Char.isDigit_iff_toNat.mp digit
          exact ⟨by exact le_trans (by decide) bounds.1, bounds.2⟩
        · decide
      split_ifs at hc
      · rcases List.mem_cons.mp hc with rfl | hc
        · decide
        · exact body hc
      · exact body hc
    intro c hc
    obtain ⟨low, high⟩ := code c hc
    simp [Text.isPadding, Text.isBlank, Text.blankRanges]
    omega
  -- A numeral starts with a digit, so it is none of the words.
  have word : ∀ d rest, d.isDigit = false →
      String.ofList (n.chars.map Char.toLower) ≠ String.ofList (d :: rest) := by
    intro d rest letter same
    obtain ⟨c, tail, shape, digit⟩ := n.exists_chars_cons
    rw [shape, List.map_cons, String.ofList_inj, List.cons.injEq, toLower_of_isDigit digit] at same
    rw [← same.1, digit] at letter
    cases letter
  have inf := word 'i' ['n', 'f'] rfl
  have infinity := word 'i' ['n', 'f', 'i', 'n', 'i', 't', 'y'] rfl
  have nan := word 'n' ['a', 'n'] rfl
  rw [Decimal.readDouble?, Text.trim_eq_self unpadded, h, splitSign_signedChars]
  simp only [n.ofFree?_chars, Option.map_some]
  rw [if_neg, if_neg nan]
  simpa using ⟨inf, infinity⟩

end Numeral

/-- The number that the plain text of a double is read as. -/
@[irreducible] def Binary64.reread (x : Binary64) : Binary64 :=
  (Decimal.readDouble? (plainText x)).getD .nan

theorem Binary64.reread_eq {x : Binary64} {n : Numeral} {negative : Bool}
    (h : (plainText x).toList = n.signedChars negative) :
    x.reread = (n.decimal negative).toBinary64 := by
  rw [reread, n.readDouble?_signedChars h, Option.getD_some]

/-- The text of the double is read as a double equal to it. -/
def Binary64.ReadsBack (x : Binary64) : Prop :=
  (Decimal.readDouble? (plainText x)).any (·.same x) = true

instance (x : Binary64) : Decidable x.ReadsBack := inferInstanceAs (Decidable (_ = true))

theorem Binary64.ReadsBack.same_reread {x : Binary64} (h : x.ReadsBack) : x.reread.same x = true := by
  obtain ⟨y, hy, same⟩ := (Option.any_eq_true _ _).mp h
  rwa [reread, Option.mem_def.mp hy, Option.getD_some]

end FunctionStudy
