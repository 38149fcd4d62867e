import FunctionStudy.Proofs.Chunks
import FunctionStudy.Proofs.Member.Canonical

/-! Reading canonical members back. The text of the canonical member of a polynomial is cut into the
texts of its terms, and each term is read as it was. Exponents and coefficients are integers up to
`2^53` here. -/

namespace FunctionStudy

open Polynomial

section Characters

/-- The characters of written terms, all between `+` and `z` in the character table. -/
def IsTermChar (c : Char) : Prop := c.isDigit = true ∨ c.isAlpha = true ∨ c = '.' ∨ c = '^'

variable {c : Char}

theorem not_blank_of_code (low : 43 ≤ c.toNat) (high : c.toNat ≤ 122) : Text.isBlank c = false := by
  simp [Text.isBlank, Text.blankRanges]
  omega

theorem IsTermChar.code (h : IsTermChar c) : 46 ≤ c.toNat ∧ c.toNat ≤ 122 ∧ c.toNat ≠ 61 := by
  rcases h with digit | alpha | rfl | rfl
  · have bounds := Char.isDigit_iff_toNat.mp digit
    have zero : '0'.toNat = 48 := rfl
    have nine : '9'.toNat = 57 := rfl
    omega
  · have code := Formula.isAlpha_iff_toNat.mp alpha
    omega
  · decide
  · decide

theorem IsTermChar.not_sign (h : IsTermChar c) : isSign c = false := by
  obtain ⟨low, -, -⟩ := h.code
  have plus : c ≠ '+' := by rintro rfl; exact absurd low (by decide)
  have minus : c ≠ '-' := by rintro rfl; exact absurd low (by decide)
  simp [isSign, plus, minus]

theorem TermText.isTermChar {t : TermText} {l : Char} (hl : l.isAlpha = true) (ht : t.HasLetter l) :
    ∀ c ∈ t.chars, IsTermChar c := by
  have numeral : ∀ n : Numeral, ∀ c ∈ n.chars, IsTermChar c := by
    intro n c hc
    rcases n.mem_chars hc with digit | rfl
    · exact .inl digit
    · exact .inr (.inr (.inl rfl))
  intro c hc
  cases t with
  | constant n => exact numeral n c hc
  | power n m e =>
    obtain rfl : m = l := ht
    rw [chars, List.mem_append, List.mem_cons] at hc
    rcases hc with hc | rfl | hc
    · cases n with
      | none => cases hc
      | some n => exact numeral n c hc
    · exact .inr (.inl hl)
    · unfold exponentChars at hc
      split_ifs at hc with one
      · cases hc
      · rcases List.mem_cons.mp hc with rfl | hc
        · exact .inr (.inr (.inr rfl))
        · exact .inl (Nat.isDigit_of_mem_toDigits (by decide) (by decide) hc)

end Characters

section Chunks

variable {l : Char}

theorem chunks_flatMap (hl : l.isAlpha = true) {rest : List SignedText}
    (letters : ∀ s ∈ rest, s.body.HasLetter l) :
    chunks isSign (rest.flatMap SignedText.chars) = rest.map SignedText.chars := by
  induction rest with
  | nil => simp
  | cons s rest ih =>
    have unsigned : ∀ d ∈ s.body.chars, isSign d = false := fun d hd =>
      (TermText.isTermChar hl (letters s (by simp)) d hd).not_sign
    rw [List.flatMap_cons, SignedText.chars, List.cons_append,
      chunks_cons unsigned (Formula.head?_flatMap_chars rest),
      ih fun t ht => letters t (by simp [ht]), List.map_cons, SignedText.chars]

/-- The chunks of a sum are its terms, the first one as it is written. -/
theorem chunks_sumChars (hl : l.isAlpha = true) {s : SignedText} {rest : List SignedText}
    (letters : ∀ t ∈ s :: rest, t.body.HasLetter l) :
    chunks isSign (sumChars (s :: rest)) = s.firstChars :: rest.map SignedText.chars := by
  have unsigned : ∀ d ∈ s.body.chars, isSign d = false := fun d hd =>
    (TermText.isTermChar hl (letters s (by simp)) d hd).not_sign
  have others := chunks_flatMap hl fun t ht => letters t (List.mem_cons_of_mem s ht)
  have signs := Formula.head?_flatMap_chars rest
  rw [sumChars, SignedText.firstChars]
  cases s.negative with
  | true => rw [if_pos rfl, List.cons_append, chunks_cons unsigned signs, others]
  | false =>
    obtain ⟨c, cs, hc⟩ := List.exists_cons_of_ne_nil s.body.chars_ne_nil
    rw [hc] at unsigned ⊢
    rw [if_neg Bool.false_ne_true, List.cons_append,
      chunks_cons (fun d hd => unsigned d (by simp [hd])) signs, others]

end Chunks

section Terms

variable {l : Char} {k m : ℕ}

theorem digitCount_le (h : m ≤ 2 ^ 53) : Decimal.digitCount m ≤ 16 :=
  (Decimal.digitCount_le_iff m 16).mpr (h.trans_lt (by norm_num))

theorem toBinary64_natural (h : m ≤ 2 ^ 53) (positive : m ≠ 0) (negative : Bool) :
    (Decimal.mk negative m 0).toBinary64 = .ofInt (if negative then -m else m) := by
  have count := digitCount_le h
  have low : ¬ (400 : ℤ) < 0 + Decimal.digitCount m := by omega
  have high : ¬ (0 : ℤ) + Decimal.digitCount m < -400 := by omega
  rw [Decimal.toBinary64, if_neg positive, if_neg low, if_neg high, Binary64.ofInt]
  congr 1
  cases negative <;> simp [Decimal.toRat]

theorem dropFinalNewline_eq {cs : List Char} (h : '\n' ∉ cs) : Literal.dropFinalNewline cs = cs := by
  unfold Literal.dropFinalNewline
  split_ifs with last
  · exact absurd (List.mem_of_getLast? last) h
  · rfl

theorem newline_notMem_toDigits : '\n' ∉ Nat.toDigits 10 k := fun h =>
  absurd (Nat.isDigit_of_mem_toDigits (by decide) (by decide) h) (by decide)

theorem caret_notMem_toDigits : '^' ∉ Nat.toDigits 10 k := fun h =>
  absurd (Nat.isDigit_of_mem_toDigits (by decide) (by decide) h) (by decide)

theorem exponent?_toDigits : Literal.exponent? (Nat.toDigits 10 k) = some ⟨false, k, 0⟩ := by
  have plain := (Numeral.ofNat k).ofPlain?_chars
  rw [Numeral.chars_ofNat, Numeral.decimal_ofNat] at plain
  obtain ⟨c, rest, hc, digit⟩ := (Numeral.ofNat k).exists_chars_cons
  rw [Numeral.chars_ofNat] at hc
  have first : ((Nat.toDigits 10 k).head?.map Text.isDigit).getD false = true := by
    simp [hc, Text.isDigit_of_ascii digit]
  simp only [Literal.exponent?, dropFinalNewline_eq newline_notMem_toDigits, first, if_true, plain]

theorem parse_literal (hl : l.isAlpha = true) (positive : k ≠ 0) (hk : k ≤ 2 ^ 53) :
    Literal.parse (String.ofList (l :: TermText.exponentChars k)) =
      .ok (Term.literalOf l k) := by
  have caret : l ≠ '^' := by rintro rfl; exact absurd hl (by decide)
  have comma : l ≠ ',' := by rintro rfl; exact absurd hl (by decide)
  have point : l ≠ '.' := by rintro rfl; exact absurd hl (by decide)
  have newline : l ≠ '\n' := by rintro rfl; exact absurd hl (by decide)
  have name : Literal.isLetterName [l] = true := by
    simp [Literal.isLetterName, Literal.dropFinalNewline, newline, Literal.isAsciiLetter, hl]
  unfold TermText.exponentChars Term.literalOf
  by_cases one : k = 1
  · subst one
    simp [Literal.parse, caret, caret.symm, comma, point, name, Literal.ofLetter]
  · have value := toBinary64_natural hk positive false
    simp [Literal.parse, caret, comma, point, name, one, positive, caret_notMem_toDigits,
      exponent?_toDigits, value]

/-- How a sign may stand before a term; the first plus of a sum is left out. -/
inductive IsLead : Bool → List Char → Prop
  | bare : IsLead false []
  | signed (negative : Bool) : IsLead negative [SignedText.sign negative]

theorem IsLead.splitSign {negative : Bool} {lead body : List Char} (h : IsLead negative lead)
    (hb : ∀ c ∈ body.head?, isSign c = false) :
    Decimal.splitSign (lead ++ body) = (negative, body) := by
  cases h with
  | signed negative => cases negative <;> rfl
  | bare =>
    cases body with
    | nil => rfl
    | cons c body =>
      have unsigned := hb c (by simp)
      simp only [isSign, Bool.or_eq_false_iff, beq_eq_false_iff_ne] at unsigned
      simp [Decimal.splitSign, unsigned.1, unsigned.2]

theorem isLetter_of_code {c : Char} (h : c.toNat < 0x80) (alpha : c.isAlpha = false) :
    Text.isLetter c = false := by rw [Text.isLetter_eq_isAlpha h, alpha]

theorem IsLead.not_letter {negative : Bool} {lead : List Char} (h : IsLead negative lead) :
    ∀ c ∈ lead, Text.isLetter c = false := by
  intro c hc
  cases h with
  | bare => cases hc
  | signed negative =>
    rw [List.mem_singleton.mp hc]
    cases negative <;> exact isLetter_of_code (by decide) (by decide)

theorem not_letter_of_digit {c : Char} (h : c.isDigit = true) : Text.isLetter c = false := by
  have bounds := Char.isDigit_iff_toNat.mp h
  have nine : '9'.toNat = 57 := rfl
  exact isLetter_of_code (by omega) (Formula.isAlpha_of_isDigit h)

theorem toDigits_not_sign : ∀ c ∈ (Nat.toDigits 10 m).head?, isSign c = false := by
  intro c hc
  have digit := Nat.isDigit_of_mem_toDigits (by decide) (by decide) (List.mem_of_mem_head? hc)
  exact IsTermChar.not_sign (.inl digit)

variable {z : ℤ} {lead : List Char}

theorem parseCoefficient_digits (chunk : String) (h : IsLead (decide (z < 0)) lead) (hz : z ≠ 0)
    (small : |z| ≤ 2 ^ 53) :
    Term.parseCoefficient chunk (lead ++ Nat.toDigits 10 z.natAbs) = .ok (.ofInt z) := by
  have plain := (Numeral.ofNat z.natAbs).ofPlain?_chars
  rw [Numeral.chars_ofNat, Numeral.decimal_ofNat] at plain
  have nonempty : (Nat.toDigits 10 z.natAbs).isEmpty = false := by simp
  have noBreak : Nat.toDigits 10 z.natAbs ≠ ['\n'] := fun h =>
    newline_notMem_toDigits (h ▸ List.mem_singleton_self _)
  have size : z.natAbs ≤ 2 ^ 53 := by
    rw [Int.abs_eq_natAbs] at small
    exact_mod_cast small
  have value := toBinary64_natural size (Int.natAbs_ne_zero.mpr hz) (decide (z < 0))
  have signed : (if decide (z < 0) = true then -(z.natAbs : ℤ) else z.natAbs) = z := by
    by_cases negative : z < 0
    · rw [decide_eq_true negative, if_pos rfl]
      omega
    · rw [decide_eq_false negative, if_neg Bool.false_ne_true]
      omega
  rw [signed] at value
  rw [Term.parseCoefficient, h.splitSign toDigits_not_sign]
  simp only [nonempty, noBreak, dropFinalNewline_eq newline_notMem_toDigits, plain, if_false,
    Bool.false_eq_true, value]

theorem parseCoefficient_unit (chunk : String) (h : IsLead (decide (z < 0)) lead) (unit : |z| = 1) :
    Term.parseCoefficient chunk lead = .ok (.ofInt z) := by
  have split : Decimal.splitSign (lead ++ []) = (decide (z < 0), []) := h.splitSign (by simp)
  rw [List.append_nil] at split
  rw [Term.parseCoefficient, split]
  rcases eq_or_eq_neg_of_abs_eq unit with rfl | rfl <;> rfl

theorem parse_of_parts {number : List Char} (literal : List Char) {c : Binary64} {m : Option Literal}
    (hn : ∀ c ∈ number, Text.isLetter c = false) (hl : ∀ c ∈ literal.head?, Text.isLetter c = true)
    (hm : Literal.parse (String.ofList literal) = .ok m)
    (hc : Term.parseCoefficient (String.ofList (number ++ literal)) number = .ok c)
    (complete : m.isNone = true → (Decimal.splitSign number).2 ≠ []) (nonempty : number ++ literal ≠ []) :
    Term.parse (String.ofList (number ++ literal)) = .ok ⟨c, m⟩ := by
  obtain ⟨ht, hd⟩ := Text.span_append (p := fun c => !Text.isLetter c) number literal
    (by simpa using hn) (by simpa using hl)
  have some : (String.ofList (number ++ literal)).isEmpty = false := by
    simpa using nonempty
  have whole : (m.isNone && (Decimal.splitSign number).2.isEmpty) = false := by
    cases h : m.isNone with
    | false => rfl
    | true => simpa using complete h
  simp only [Term.parse, String.toList_ofList, ht, hd, hm, hc, some]
  simp [whole, bind, Except.bind, pure, Except.pure]

theorem parse_textOf (hl : l.isAlpha = true) (h : IsLead (decide (z < 0)) lead) (hz : z ≠ 0)
    (small : |z| ≤ 2 ^ 53) (hk : k ≤ 2 ^ 53) {n : Numeral}
    (hn : n.chars = Nat.toDigits 10 z.natAbs) :
    Term.parse (String.ofList (lead ++ (Term.textOf n (decide (|z| = 1)) l k).chars)) =
      .ok (Term.ofPower (String.singleton l) (.ofInt z) k) := by
  have digits : ∀ c ∈ lead ++ Nat.toDigits 10 z.natAbs, Text.isLetter c = false := by
    intro c hc
    rcases List.mem_append.mp hc with hc | hc
    · exact h.not_letter c hc
    · exact not_letter_of_digit (Nat.isDigit_of_mem_toDigits (by decide) (by decide) hc)
  have letter : ∀ c ∈ (l :: TermText.exponentChars k).head?, Text.isLetter c = true := by
    intro c hc
    obtain rfl : l = c := by simpa using hc
    have code := (IsTermChar.code (.inr (.inl hl))).2.1
    rw [Text.isLetter_eq_isAlpha (by omega), hl]
  have others : ¬ (k = 0) → ¬ ((Term.literalOf l k).isNone = true) := by
    intro positive
    simp [Term.literalOf, positive]
  rw [Term.ofPower_eq]
  unfold Term.textOf
  by_cases constant : k = 0
  · subst constant
    have read := parse_of_parts [] (m := none) digits (by simp) rfl
      (parseCoefficient_digits _ h hz small) (by simp [h.splitSign toDigits_not_sign]) (by simp)
    simpa [TermText.chars, hn, Term.literalOf] using read
  by_cases unit : |z| = 1
  · have read := parse_of_parts _ h.not_letter letter (parse_literal hl constant hk)
      (parseCoefficient_unit _ h unit) (fun none => absurd none (others constant)) (by simp)
    simpa [TermText.chars, TermText.numberChars, constant, unit] using read
  · have read := parse_of_parts _ digits letter (parse_literal hl constant hk)
      (parseCoefficient_digits _ h hz small) (fun none => absurd none (others constant)) (by simp)
    simpa [TermText.chars, TermText.numberChars, constant, unit, hn] using read

end Terms

section Sums

variable {P : ℤ[X]} {l : Char} {k : ℕ} {ks : List ℕ}

noncomputable def signedTextOf (P : ℤ[X]) (l : Char) (k : ℕ) : SignedText :=
  ⟨decide (P.coeff k < 0), Term.textOf (.ofNat (P.coeff k).natAbs) (decide (|P.coeff k| = 1)) l k⟩

theorem toList_format_termOf (small : |P.coeff k| ≤ 2 ^ 53) (hk : IsDouble k) :
    ((termOf P l k).format false).toList = (signedTextOf P l k).chars := by
  have value := Binary64.toRat?_ofInt small
  have written := Decimal.toList_plainText_intCast value
  have sign : decide ((P.coeff k : ℚ) < 0) = decide (P.coeff k < 0) := by simp
  have size : decide (|(P.coeff k : ℚ)| = 1) = decide (|P.coeff k| = 1) := by
    simp only [← Int.cast_abs, Int.cast_eq_one]
  rw [termOf, signedTextOf, ← sign, ← size]
  exact Term.toList_format hk value (by rw [sign]; exact written)

theorem parse_sumChars (hl : l.isAlpha = true) (some : ks ≠ [])
    (terms : ∀ k ∈ ks, P.coeff k ≠ 0 ∧ |P.coeff k| ≤ 2 ^ 53 ∧ k ≤ 2 ^ 53) :
    Member.parse (String.ofList (sumChars (ks.map (signedTextOf P l)))) =
      .ok ⟨ks.map (termOf P l)⟩ := by
  have letters : ∀ s ∈ ks.map (signedTextOf P l), s.body.HasLetter l := by
    intro s hs
    obtain ⟨k, -, rfl⟩ := List.mem_map.mp hs
    exact Term.textOf_hasLetter _ _ _ _
  have one : ∀ k ∈ ks, ∀ lead, IsLead (signedTextOf P l k).negative lead →
      Term.parse (String.ofList (lead ++ (signedTextOf P l k).body.chars)) = .ok (termOf P l k) := by
    intro k hk lead hlead
    obtain ⟨nonzero, small, exponent⟩ := terms k hk
    exact parse_textOf hl hlead nonzero small exponent (Numeral.chars_ofNat _)
  obtain ⟨first, rest, rfl⟩ := List.exists_cons_of_ne_nil some
  rw [List.map_cons] at letters ⊢
  have firstTerm : Term.parse (String.ofList (signedTextOf P l first).firstChars) =
      .ok (termOf P l first) := by
    cases hn : (signedTextOf P l first).negative with
    | true =>
      have read := one first (by simp) ['-'] (hn ▸ .signed true)
      simpa [SignedText.firstChars, hn] using read
    | false =>
      have read := one first (by simp) [] (hn ▸ .bare)
      simpa [SignedText.firstChars, hn] using read
  have others : ∀ k ∈ rest, (Term.parse ∘ (String.ofList ∘ SignedText.chars) ∘ signedTextOf P l) k =
      .ok (termOf P l k) := fun k hk => one k (by simp [hk]) [_] (.signed _)
  rw [Member.parse, splitTerms, String.toList_ofList, chunks_sumChars hl letters]
  rw [List.map_cons, List.map_map, List.mapM_cons, firstTerm, List.map_map, List.mapM_map,
    mapM_eq_ok others]
  rfl

/-- The canonical text of a polynomial. -/
noncomputable def Member.textOf (P : ℤ[X]) (l : Char) : String := (canonicalOf P l).text

theorem toList_textOf (h : IsRepresentable P) :
    (Member.textOf P l).toList = sumChars ((supportTo P P.natDegree).map (signedTextOf P l)) := by
  refine Member.toList_text ?_
  rw [Member.terms_canonicalOf h.small, List.map_map, List.map_map]
  refine List.map_congr_left fun k hk => ?_
  exact toList_format_termOf (h.small k) (h.exponents k (mem_support_natDegree.mp hk))

theorem supportTo_ne_nil (nonzero : P ≠ 0) : supportTo P P.natDegree ≠ [] := by
  have leading : P.natDegree ∈ supportTo P P.natDegree :=
    mem_support_natDegree.mpr (leadingCoeff_ne_zero.mpr nonzero)
  exact List.ne_nil_of_mem leading

theorem Member.parse_textOf (hl : l.isAlpha = true) (nonzero : P ≠ 0)
    (small : HasSmallCoefficients P) (degree : P.natDegree ≤ 2 ^ 53) :
    Member.parse (Member.textOf P l) = .ok (canonicalOf P l) := by
  have below : ∀ k, P.coeff k ≠ 0 → k ≤ 2 ^ 53 := fun k hk =>
    (le_natDegree_of_ne_zero hk).trans degree
  have written := toList_textOf (l := l) ⟨small, fun k hk => isDouble_of_le (below k hk)⟩
  rw [← String.ofList_toList (s := Member.textOf P l), written,
    parse_sumChars hl (supportTo_ne_nil nonzero)]
  · rw [← Member.terms_canonicalOf small]
  · intro k hk
    have nonzero := mem_support_natDegree.mp hk
    exact ⟨nonzero, small k, below k nonzero⟩

end Sums

end FunctionStudy
