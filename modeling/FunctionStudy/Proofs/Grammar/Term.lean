import FunctionStudy.Proofs.Grammar.Spelling
import FunctionStudy.Proofs.Member.Parsing

/-! Reading terms. A text without line breaks is read as a term exactly where it is the spelling of
one, and the term is what the spelling means. Everything else is refused as text outside the
grammar. -/

namespace FunctionStudy

variable {cs : List Char}

section Numbers

theorem FixedSpelling.ofPlain?_chars (n : FixedSpelling) :
    Decimal.ofPlain? n.chars = some (n.decimal false) := by
  obtain ⟨whole, rest⟩ := n.span_chars
  have some : n.whole.chars.isEmpty = false := by simpa using n.whole.chars_ne_nil
  rw [Decimal.ofPlain?, whole, rest, decimal]
  cases n.places with
  | none => simp [some]
  | some places =>
    have nonempty : places.chars.isEmpty = false := by simpa using places.chars_ne_nil
    have digits : places.chars.all Text.isDigit = true := List.all_eq_true.mpr places.digits
    simp [nonempty, digits]

theorem NumberSpelling.ofPlain?_chars (n : NumberSpelling) :
    Decimal.ofPlain? n.chars = some (n.decimal false) := by
  cases n with
  | fixed n => exact n.ofPlain?_chars
  | fraction places =>
    have point : Text.isDigit '.' = false := by decide +kernel
    have nonempty : places.chars.isEmpty = false := by simpa using places.chars_ne_nil
    have digits : places.chars.all Text.isDigit = true := List.all_eq_true.mpr places.digits
    simp [chars, decimal, Decimal.ofPlain?, point, nonempty, digits]

theorem exists_numberSpelling {d : Decimal} (h : Decimal.ofPlain? cs = some d) :
    ∃ n : NumberSpelling, n.chars = cs := by
  have whole : ∀ c ∈ cs.takeWhile Text.isDigit, Text.isDigit c = true := fun c hc =>
    List.mem_takeWhile_imp hc
  have parts := List.takeWhile_append_dropWhile (p := Text.isDigit) (l := cs)
  unfold Decimal.ofPlain? at h
  dsimp only at h
  split at h
  · next rest =>
    split_ifs at h with empty
    rw [rest, List.append_nil] at parts
    exact ⟨.fixed ⟨⟨_, by simpa using empty, whole⟩, none⟩, by
      simpa [NumberSpelling.chars, FixedSpelling.chars] using parts⟩
  · next places rest =>
    split_ifs at h with all
    rw [Bool.and_eq_true, Bool.not_eq_true', List.isEmpty_eq_false_iff, List.all_eq_true] at all
    rw [rest] at parts
    by_cases empty : cs.takeWhile Text.isDigit = []
    · rw [empty, List.nil_append] at parts
      exact ⟨.fraction ⟨places, all.1, all.2⟩, parts⟩
    · exact ⟨.fixed ⟨⟨_, empty, whole⟩, some ⟨places, all.1, all.2⟩⟩, parts⟩
  · cases h

end Numbers

section Literals

theorem FixedSpelling.newline_notMem (n : FixedSpelling) : '\n' ∉ n.chars := by
  intro h
  rcases n.mem_chars h with digit | point
  · exact Text.ne_of_isDigit digit (by decide) rfl
  · exact absurd point (by decide)

theorem FixedSpelling.exponent?_chars (n : FixedSpelling) :
    Literal.exponent? n.chars = some (n.decimal false) := by
  obtain ⟨c, rest, shape, digit⟩ := n.exists_cons
  have first : (n.chars.head?.map Text.isDigit).getD false = true := by simp [shape, digit]
  simp only [Literal.exponent?, dropFinalNewline_eq n.newline_notMem, first, if_true, n.ofPlain?_chars]

theorem exists_fixedSpelling (noBreak : '\n' ∉ cs) {d : Decimal} (h : Literal.exponent? cs = some d) :
    ∃ n : FixedSpelling, n.chars = cs := by
  simp only [Literal.exponent?, dropFinalNewline_eq noBreak] at h
  split_ifs at h with first
  obtain ⟨n, rfl⟩ := exists_numberSpelling h
  cases n with
  | fixed n => exact ⟨n, rfl⟩
  | fraction places =>
    have point : Text.isDigit '.' = false := by decide +kernel
    simp [NumberSpelling.chars, point] at first

theorem isLetterName_iff (noBreak : '\n' ∉ cs) :
    Literal.isLetterName cs = true ↔
      ∃ c primes, cs = c :: primes ∧ c.isAlpha = true ∧ ∀ p ∈ primes, p = '\'' := by
  rw [Literal.isLetterName, dropFinalNewline_eq noBreak]
  cases cs with
  | nil => simp
  | cons c primes => simp [Literal.isAsciiLetter]

/-- The name that is left of a literal token, in front of its exponent. -/
def nameChars (written : List Char) : List Char := written.filter fun c => c != ',' && c != '.'

theorem LiteralSpelling.nameChars_eq (l : LiteralSpelling) :
    nameChars (l.letter :: l.marks) = l.letter :: nameChars l.marks := by
  have comma : l.letter ≠ ',' := fun h => absurd l.isAlpha (by rw [h]; decide)
  have point : l.letter ≠ '.' := fun h => absurd l.isAlpha (by rw [h]; decide)
  simp [nameChars, comma, point]

theorem LiteralSpelling.mem_nameChars {l : LiteralSpelling} {c : Char} (h : c ∈ nameChars l.marks) :
    c = '\'' := by
  obtain ⟨mark, kept⟩ := List.mem_filter.mp h
  rcases l.isMark c mark with rfl | rfl | rfl
  · rfl
  · exact absurd kept (by decide)
  · exact absurd kept (by decide)

theorem LiteralSpelling.isLetterName (l : LiteralSpelling) :
    Literal.isLetterName (nameChars (l.letter :: l.marks)) = true := by
  have noBreak : '\n' ∉ l.letter :: nameChars l.marks := by
    intro h
    rcases List.mem_cons.mp h with h | h
    · exact absurd l.isAlpha (by rw [← h]; decide)
    · exact absurd (mem_nameChars h) (by decide)
  rw [l.nameChars_eq, isLetterName_iff noBreak]
  exact ⟨_, _, rfl, l.isAlpha, fun p hp => mem_nameChars hp⟩

theorem LiteralSpelling.parse_chars (l : LiteralSpelling) :
    Literal.parse (String.ofList l.chars) = .ok (some l.literal) := by
  obtain ⟨name, rest⟩ := l.span_chars
  have isName := l.isLetterName
  have some : (String.ofList l.chars).isEmpty = false := by simp [chars]
  have letters : (l.letter :: l.marks).filter (fun c => c != ',' && c != '.') =
      l.letter :: nameChars l.marks := l.nameChars_eq
  have caret : l.chars.contains '^' = l.exponent.isSome := by
    rw [← List.takeWhile_append_dropWhile (p := (· != '^')) (l := l.chars), rest]
    have none : ∀ c ∈ l.chars.takeWhile (· != '^'), c ≠ '^' := fun c hc => by
      simpa using List.mem_takeWhile_imp hc
    cases l.exponent with
    | none => simpa [exponentChars] using fun h => none '^' h rfl
    | some e => simp [exponentChars]
  rw [nameChars, letters] at isName
  simp only [Literal.parse, some, String.toList_ofList, name, rest, letters, isName, caret]
  cases exponent : l.exponent with
  | none => simp [exponentChars, literal, exponent, Literal.ofLetter, nameChars]
  | some e =>
    have single : '^' ∉ e.chars := by
      intro h
      rcases e.mem_chars h with digit | point
      · exact Text.ne_of_isDigit digit (by decide) rfl
      · exact absurd point (by decide)
    simp [exponentChars, single, literal, exponent, e.exponent?_chars, nameChars]

theorem isMark_of_nameChars (h : ∀ p ∈ nameChars cs, p = '\'') :
    ∀ c ∈ cs, c = '\'' ∨ c = '.' ∨ c = ',' := by
  intro c hc
  by_cases comma : c = ','
  · exact .inr (.inr comma)
  by_cases point : c = '.'
  · exact .inr (.inl point)
  · exact .inl (h c (List.mem_filter.mpr ⟨hc, by simp [comma, point]⟩))

theorem cut_cases (mark : Char) (cs : List Char) :
    (cs.dropWhile (· != mark) = [] ∧ mark ∉ cs) ∨ ∃ rest, cs.dropWhile (· != mark) = mark :: rest := by
  cases rest : cs.dropWhile (· != mark) with
  | nil =>
    rw [List.dropWhile_eq_nil_iff] at rest
    exact .inl ⟨rfl, fun member => absurd rfl (bne_iff_ne.mp (rest mark member))⟩
  | cons c tail =>
    have stop := List.head?_dropWhile_not (· != mark) cs
    rw [rest] at stop
    obtain rfl : c = mark := by simpa using stop
    exact .inr ⟨tail, rfl⟩

theorem exists_literalSpelling {c : Char} (letter : Text.isLetter c = true) (noBreak : '\n' ∉ c :: cs)
    {m : Option Literal} (h : Literal.parse (String.ofList (c :: cs)) = .ok m) :
    ∃ l : LiteralSpelling, l.chars = c :: cs := by
  have others : ∀ d ∈ ['^', ',', '.'], c ≠ d := by
    rintro d hd rfl
    have none : ['^', ',', '.'].all (fun d => !Text.isLetter d) = true := by decide +kernel
    simpa [letter] using List.all_eq_true.mp none c hd
  have caret := others '^' (by simp)
  have kept : (c :: cs.takeWhile (· != '^')).filter (fun d => d != ',' && d != '.') =
      c :: nameChars (cs.takeWhile (· != '^')) := by
    simp [nameChars, others ',' (by simp), others '.' (by simp)]
  have noBreakName : '\n' ∉ c :: nameChars (cs.takeWhile (· != '^')) := by
    rw [← kept]
    intro member
    refine noBreak ((List.Sublist.cons_cons c (List.takeWhile_sublist (· != '^'))).subset ?_)
    exact (List.mem_filter.mp member).1
  have parts := List.takeWhile_append_dropWhile (p := (· != '^')) (l := cs)
  have first : (c :: cs).takeWhile (· != '^') = c :: cs.takeWhile (· != '^') := by simp [caret]
  have after : (c :: cs).dropWhile (· != '^') = cs.dropWhile (· != '^') := by simp [caret]
  have nonempty : (String.ofList (c :: cs)).isEmpty = false := by simp
  have named : Literal.isLetterName (c :: nameChars (cs.takeWhile (· != '^'))) = true := by
    by_contra refused
    rw [Bool.not_eq_true] at refused
    simp only [Literal.parse, String.toList_ofList, first, after, kept, nonempty, refused,
      Bool.false_eq_true, if_false, Bool.not_false, if_true] at h
    split_ifs at h
  obtain ⟨c', primes, same, alpha, isPrime⟩ := (isLetterName_iff noBreakName).mp named
  obtain ⟨rfl, rfl⟩ := List.cons.inj same
  have marks := isMark_of_nameChars isPrime
  rcases cut_cases '^' cs with ⟨whole, -⟩ | ⟨power, shape⟩
  · -- Without a caret the whole token is letter and marks.
    rw [whole, List.append_nil] at parts
    exact ⟨⟨c, alpha, _, marks, none⟩, by simp [LiteralSpelling.chars, LiteralSpelling.exponentChars, parts]⟩
  · rw [shape] at parts
    have found : (c :: cs).contains '^' = true := by
      rw [← parts]
      simp
    have noBreakPower : '\n' ∉ power := by
      intro member
      refine noBreak (List.mem_cons_of_mem c ?_)
      rw [← parts]
      simp [member]
    simp only [Literal.parse, String.toList_ofList, first, after, kept, nonempty, named, found, shape,
      List.drop_one, List.tail_cons, Bool.false_eq_true, if_false, Bool.not_true] at h
    cases exponent : Literal.exponent? power with
    | none =>
      rw [exponent] at h
      split_ifs at h
    | some e =>
      obtain ⟨n, rfl⟩ := exists_fixedSpelling noBreakPower exponent
      exact ⟨⟨c, alpha, _, marks, some n⟩, by
        simp [LiteralSpelling.chars, LiteralSpelling.exponentChars, parts]⟩

end Literals

section Terms

theorem splitSign_signChars (sign : Option Bool) {body : List Char}
    (h : ∀ c ∈ body.head?, isSign c = false) :
    Decimal.splitSign (TermSpelling.signChars sign ++ body) = (sign.getD false, body) := by
  cases sign with
  | none => exact IsLead.bare.splitSign h
  | some negative => exact (IsLead.signed negative).splitSign h

theorem exists_signChars (cs : List Char) :
    ∃ sign : Option Bool, cs = TermSpelling.signChars sign ++ (Decimal.splitSign cs).2 := by
  unfold Decimal.splitSign
  split
  · exact ⟨some true, rfl⟩
  · exact ⟨some false, rfl⟩
  · exact ⟨none, rfl⟩

theorem not_letter_of_signChars (sign : Option Bool) :
    ∀ c ∈ TermSpelling.signChars sign, Text.isLetter c = false := by
  cases sign with
  | none => exact IsLead.bare.not_letter
  | some negative => exact (IsLead.signed negative).not_letter

namespace NumberSpelling

variable (n : NumberSpelling)

theorem newline_notMem : '\n' ∉ n.chars := by
  intro h
  rcases n.mem_chars h with digit | point
  · exact Text.ne_of_isDigit digit (by decide) rfl
  · exact absurd point (by decide)

theorem not_sign : ∀ c ∈ n.chars.head?, isSign c = false := by
  intro c hc
  exact (BodySpelling.number n).not_sign_of_mem
    (by simpa [BodySpelling.chars, BodySpelling.numberChars, BodySpelling.literalChars] using List.mem_of_mem_head? hc)

theorem decimal_negative (negative : Bool) :
    { n.decimal false with negative } = n.decimal negative := by
  cases n with
  | fixed n =>
    obtain ⟨whole, places⟩ := n
    cases places <;> rfl
  | fraction places => rfl

theorem parseCoefficient_chars (chunk : String) (sign : Option Bool) :
    Term.parseCoefficient chunk (TermSpelling.signChars sign ++ n.chars) =
      .ok (n.decimal (sign.getD false)).toBinary64 := by
  have some : n.chars.isEmpty = false := by simpa using n.chars_ne_nil
  have noBreak : n.chars ≠ ['\n'] := fun h => n.newline_notMem (by simp [h])
  rw [Term.parseCoefficient, splitSign_signChars sign n.not_sign]
  simp only [some, noBreak, dropFinalNewline_eq n.newline_notMem, n.ofPlain?_chars,
    n.decimal_negative, Bool.false_eq_true, if_false]

end NumberSpelling

theorem parseCoefficient_sign (chunk : String) (sign : Option Bool) :
    Term.parseCoefficient chunk (TermSpelling.signChars sign) =
      .ok (.ofInt (if sign.getD false then -1 else 1)) := by
  have split : Decimal.splitSign (TermSpelling.signChars sign ++ []) = (sign.getD false, []) :=
    splitSign_signChars sign (by simp)
  rw [List.append_nil] at split
  rw [Term.parseCoefficient, split]
  rfl

theorem TermSpelling.parse_chars (t : TermSpelling) :
    Term.parse (String.ofList t.chars) = .ok t.term := by
  obtain ⟨sign, body⟩ := t
  have letters : ∀ c ∈ signChars sign ++ body.numberChars, Text.isLetter c = false := by
    intro c hc
    rcases List.mem_append.mp hc with hc | hc
    · exact not_letter_of_signChars sign c hc
    · exact BodySpelling.not_letter_of_numberChars hc
  have nonempty := chars_ne_nil ⟨sign, body⟩
  have whole : chars ⟨sign, body⟩ = (signChars sign ++ body.numberChars) ++ body.literalChars := by
    rw [chars, BodySpelling.chars, List.append_assoc]
  rw [whole] at nonempty ⊢
  refine parse_of_parts _ letters body.isLetter_head_literalChars ?_ ?_ ?_ nonempty
  · cases body with
    | number n => rfl
    | power n l => exact l.parse_chars
  · cases body with
    | number n => exact n.parseCoefficient_chars _ sign
    | power n l =>
      cases n with
      | none =>
        rw [BodySpelling.numberChars, List.append_nil]
        exact parseCoefficient_sign _ sign
      | some n => exact n.parseCoefficient_chars _ sign
  · cases body with
    | number n =>
      intro _
      rw [BodySpelling.numberChars, splitSign_signChars sign n.not_sign]
      exact n.chars_ne_nil
    | power n l => exact fun none => absurd none Bool.false_ne_true

/-- What a term that is read was read from: its number and its literal part, one of them there. -/
theorem Term.of_parse {t : Term} (h : Term.parse (String.ofList cs) = .ok t) :
    Literal.parse (String.ofList (cs.dropWhile fun c => !Text.isLetter c)) = .ok t.literal ∧
      Term.parseCoefficient (String.ofList cs) (cs.takeWhile fun c => !Text.isLetter c) =
        .ok t.coefficient ∧
      (t.literal = none → (Decimal.splitSign (cs.takeWhile fun c => !Text.isLetter c)).2 ≠ []) := by
  simp only [Term.parse, String.toList_ofList, bind, Except.bind] at h
  split_ifs at h with empty
  cases literal : Literal.parse (String.ofList (cs.dropWhile fun c => !Text.isLetter c)) with
  | error e => simp [literal] at h
  | ok m =>
    cases coefficient : Term.parseCoefficient (String.ofList cs)
        (cs.takeWhile fun c => !Text.isLetter c) with
    | error e => simp [literal, coefficient] at h
    | ok c =>
      simp only [literal, coefficient, pure, Except.pure] at h
      split_ifs at h with dangling
      cases h
      exact ⟨rfl, rfl, by simpa using dangling⟩

theorem exists_coefficient {chunk : String} {number : List Char} (noBreak : '\n' ∉ number)
    {c : Binary64} (h : Term.parseCoefficient chunk number = .ok c) :
    (Decimal.splitSign number).2 = [] ∨
      ∃ n : NumberSpelling, n.chars = (Decimal.splitSign number).2 := by
  obtain ⟨sign, shape⟩ := exists_signChars number
  have noBreakBody : '\n' ∉ (Decimal.splitSign number).2 := fun member => by
    refine noBreak ?_
    rw [shape]
    exact List.mem_append_right _ member
  by_cases empty : (Decimal.splitSign number).2 = []
  · exact .inl empty
  have noLine : (Decimal.splitSign number).2 ≠ ['\n'] := fun line => noBreakBody (by simp [line])
  have some : (Decimal.splitSign number).2.isEmpty = false := by simpa using empty
  rw [Term.parseCoefficient] at h
  simp only [some, noLine, dropFinalNewline_eq noBreakBody, Bool.false_eq_true, if_false] at h
  cases plain : Decimal.ofPlain? (Decimal.splitSign number).2 with
  | none =>
    rw [plain] at h
    cases h
  | some d => exact .inr (exists_numberSpelling plain)

theorem isLetter_head_dropWhile (cs : List Char) :
    ∀ c ∈ (cs.dropWhile fun c => !Text.isLetter c).head?, Text.isLetter c = true := by
  intro c hc
  have stop := List.head?_dropWhile_not (fun c => !Text.isLetter c) cs
  rw [Option.mem_def.mp hc] at stop
  simpa using stop

/-- What is read as a term is spelled as one. -/
theorem exists_termSpelling (noBreak : '\n' ∉ cs) {t : Term}
    (h : Term.parse (String.ofList cs) = .ok t) : ∃ s : TermSpelling, s.chars = cs := by
  obtain ⟨literal, coefficient, complete⟩ := Term.of_parse h
  have parts := List.takeWhile_append_dropWhile (p := fun c => !Text.isLetter c) (l := cs)
  have noBreakNumber : '\n' ∉ cs.takeWhile fun c => !Text.isLetter c := fun member =>
    noBreak ((List.takeWhile_sublist _).subset member)
  have noBreakLiteral : '\n' ∉ cs.dropWhile fun c => !Text.isLetter c := fun member =>
    noBreak ((List.dropWhile_sublist _).subset member)
  have letter := isLetter_head_dropWhile cs
  obtain ⟨sign, shape⟩ := exists_signChars (cs.takeWhile fun c => !Text.isLetter c)
  have number := exists_coefficient noBreakNumber coefficient
  rw [shape, List.append_assoc] at parts
  cases rest : cs.dropWhile fun c => !Text.isLetter c with
  | nil =>
    -- No letter: the number must be there.
    have none : t.literal = none := by
      rw [rest] at literal
      exact (Except.ok.inj literal).symm
    obtain ⟨n, spelled⟩ := number.resolve_left (complete none)
    refine ⟨⟨sign, .number n⟩, ?_⟩
    rw [rest, ← spelled, List.append_nil] at parts
    simpa [TermSpelling.chars, BodySpelling.chars, BodySpelling.numberChars,
      BodySpelling.literalChars] using parts
  | cons c tail =>
    rw [rest] at letter noBreakLiteral literal parts
    obtain ⟨l, spelled⟩ := exists_literalSpelling (letter c rfl) noBreakLiteral literal
    rw [← spelled] at parts
    rcases number with empty | ⟨n, spelledNumber⟩
    · refine ⟨⟨sign, .power none l⟩, ?_⟩
      rw [empty] at parts
      exact parts
    · refine ⟨⟨sign, .power (some n) l⟩, ?_⟩
      rw [← spelledNumber] at parts
      exact parts

end Terms

section Refusals

/-- All failures are about text outside the grammar. -/
def FailsByGrammar {α : Type} (result : Except Error α) : Prop :=
  ∀ e, result = .error e → ∃ p, e = .parse p

namespace FailsByGrammar

variable {α β : Type}

theorem ok (a : α) : FailsByGrammar (.ok a : Except Error α) := by
  intro e h
  cases h

theorem parse (p : ParseError) : FailsByGrammar (.error (.parse p) : Except Error α) := by
  intro e h
  cases h
  exact ⟨p, rfl⟩

theorem bind {result : Except Error α} {next : α → Except Error β} (h : FailsByGrammar result)
    (hn : ∀ a, result = .ok a → FailsByGrammar (next a)) : FailsByGrammar (result >>= next) := by
  cases result with
  | error e =>
    obtain ⟨p, rfl⟩ := h e rfl
    exact .parse p
  | ok a => exact hn a rfl

theorem mapM {f : α → Except Error β} {xs : List α} (h : ∀ x ∈ xs, FailsByGrammar (f x)) :
    FailsByGrammar (xs.mapM f) := by
  induction xs with
  | nil => exact .ok []
  | cons x xs ih =>
    rw [List.mapM_cons]
    refine .bind (h x (by simp)) fun y _ => .bind (ih fun z hz => h z (by simp [hz])) fun ys _ => ?_
    exact .ok (y :: ys)

end FailsByGrammar

theorem Literal.parse_failsByGrammar (token : String) : FailsByGrammar (Literal.parse token) := by
  unfold Literal.parse
  dsimp only
  split_ifs
  · exact .ok _
  · exact .parse _
  · exact .parse _
  · exact .ok _
  · split
    · exact .ok _
    · exact .parse _

theorem Term.parseCoefficient_failsByGrammar (chunk : String) {number : List Char}
    (noLine : (Decimal.splitSign number).2 ≠ ['\n']) : FailsByGrammar (Term.parseCoefficient chunk number) := by
  unfold Term.parseCoefficient
  dsimp only
  rw [if_neg noLine]
  split
  · exact .ok _
  split
  · exact .ok _
  · exact .parse _

/-- Only a number that is a line break behind its sign can be refused in another way. -/
theorem Term.parse_failsByGrammar_of_number {chunk : String}
    (noLine : ∀ m, Literal.parse (String.ofList (chunk.toList.dropWhile fun c => !Text.isLetter c)) = .ok m →
      (Decimal.splitSign (chunk.toList.takeWhile fun c => !Text.isLetter c)).2 ≠ ['\n']) :
    FailsByGrammar (Term.parse chunk) := by
  unfold Term.parse
  dsimp only
  split_ifs
  · exact .parse _
  refine .bind (Literal.parse_failsByGrammar _) fun m read =>
    .bind (Term.parseCoefficient_failsByGrammar _ (noLine m read)) fun c _ => ?_
  split_ifs
  · exact .parse _
  · exact .ok _

theorem Term.parse_failsByGrammar (noBreak : '\n' ∉ cs) :
    FailsByGrammar (Term.parse (String.ofList cs)) := by
  refine Term.parse_failsByGrammar_of_number fun m _ line => noBreak ?_
  rw [String.toList_ofList] at line
  obtain ⟨sign, shape⟩ := exists_signChars (cs.takeWhile fun c => !Text.isLetter c)
  refine (List.takeWhile_sublist fun c => !Text.isLetter c).subset ?_
  rw [shape, line]
  simp

end Refusals

end FunctionStudy
