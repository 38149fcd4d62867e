import FunctionStudy.Proofs.Grammar

/-! Refused terms and sides. What cannot be read is text outside the grammar, with one exception: a
line break passes as the number of a term, and is then refused as one that cannot be converted. -/

namespace FunctionStudy

section Traversals

variable {α β ε : Type} {f : α → Except ε β} {xs before after : List α} {x : α} {e : ε}

theorem mapM_eq_error (accepted : ∀ b ∈ before, ∃ y, f b = .ok y) (refused : f x = .error e) :
    (before ++ x :: after).mapM f = .error e := by
  obtain ⟨ys, read, -⟩ : ∃ ys, before.mapM f = .ok ys ∧ List.Forall₂ (fun _ _ => True) before ys :=
    exists_mapM_eq_ok fun b hb => (accepted b hb).imp fun _ h => ⟨h, trivial⟩
  rw [List.mapM_append, List.mapM_cons, read, refused]
  rfl

theorem mapM_eq_error_iff : xs.mapM f = .error e ↔ ∃ before x after, xs = before ++ x :: after ∧
    (∀ b ∈ before, ∃ y, f b = .ok y) ∧ f x = .error e := by
  refine ⟨fun h => ?_, fun ⟨before, x, after, whole, accepted, refused⟩ => whole ▸ mapM_eq_error accepted refused⟩
  induction xs with
  | nil => cases h
  | cons x xs ih =>
    rw [List.mapM_cons] at h
    cases first : f x with
    | error e' =>
      rw [first] at h
      cases h
      exact ⟨[], x, xs, rfl, fun b hb => absurd hb List.not_mem_nil, first⟩
    | ok y =>
      cases rest : xs.mapM f with
      | ok ys =>
        rw [first, rest] at h
        cases h
      | error e' =>
        rw [first, rest] at h
        cases h
        obtain ⟨before, u, after, rfl, accepted, refused⟩ := ih rest
        exact ⟨x :: before, u, after, rfl, List.forall_mem_cons.mpr ⟨⟨y, first⟩, accepted⟩, refused⟩

end Traversals

namespace Term

variable {chunk : String}

/-- The number of the term is a line break behind its sign, if it has one; its literal part, if it has one, can be
read. -/
def HasBareBreak (chunk : String) : Prop :=
  ∃ sign literal, chunk.toList = TermSpelling.signChars sign ++ '\n' :: literal ∧
    (∀ c ∈ literal.head?, Text.isLetter c = true) ∧ ∃ m, Literal.parse (String.ofList literal) = .ok m

theorem parseCoefficient_break (chunk : String) (sign : Option Bool) :
    parseCoefficient chunk (TermSpelling.signChars sign ++ ['\n']) =
      .error (.conversion (.notADouble (String.ofList (TermSpelling.signChars sign ++ ['\n'])))) := by
  have split : Decimal.splitSign (TermSpelling.signChars sign ++ ['\n']) = (sign.getD false, ['\n']) :=
    splitSign_signChars sign fun c hc => by
      rw [← Option.mem_some_iff.mp hc]
      rfl
  rw [parseCoefficient, split]
  rfl

theorem HasBareBreak.parse_eq (h : HasBareBreak chunk) :
    ∃ number, parse chunk = .error (.conversion (.notADouble number)) := by
  obtain ⟨sign, literal, whole, letter, m, read⟩ := h
  have unlettered : ∀ c ∈ TermSpelling.signChars sign ++ ['\n'], (!Text.isLetter c) = true := by
    intro c hc
    rw [Bool.not_eq_true']
    rcases List.mem_append.mp hc with hc | hc
    · exact not_letter_of_signChars sign c hc
    · rw [List.mem_singleton.mp hc]
      exact isLetter_of_code (by decide) (by decide)
  obtain ⟨front, rest⟩ := Text.span_append _ literal unlettered fun c hc => by rw [letter c hc, Bool.not_true]
  rw [List.append_cons] at whole
  have some : chunk.isEmpty = false := by
    rw [← Bool.not_eq_true, String.isEmpty_iff]
    rintro rfl
    exact absurd whole.symm (by simp)
  refine ⟨String.ofList (TermSpelling.signChars sign ++ ['\n']), ?_⟩
  simp only [parse, some, whole, front, rest, read, parseCoefficient_break, bind, Except.bind, Bool.false_eq_true,
    if_false]

theorem failsByGrammar_of_not_hasBareBreak (h : ¬ HasBareBreak chunk) : FailsByGrammar (parse chunk) := by
  refine parse_failsByGrammar_of_number fun m read line => h ?_
  obtain ⟨sign, shape⟩ := exists_signChars (chunk.toList.takeWhile fun c => !Text.isLetter c)
  have parts := List.takeWhile_append_dropWhile (p := fun c => !Text.isLetter c) (l := chunk.toList)
  rw [shape, line, List.append_assoc] at parts
  exact ⟨sign, _, parts.symm, isLetter_head_dropWhile chunk.toList, m, read⟩

end Term

namespace Member

variable {text : String}

/-- The first term that cannot be read has a line break for its number. -/
def HasBareBreak (text : String) : Prop :=
  ∃ before chunk after, splitTerms text = before ++ chunk :: after ∧ (∀ b ∈ before, ∃ t, Term.parse b = .ok t) ∧
    Term.HasBareBreak chunk

/-- A side is refused in the way its first refused term is. -/
theorem parse_eq_error_iff {e : Error} : parse text = .error e ↔ ∃ before chunk after,
    splitTerms text = before ++ chunk :: after ∧ (∀ b ∈ before, ∃ t, Term.parse b = .ok t) ∧
      Term.parse chunk = .error e := by
  rw [← mapM_eq_error_iff, parse]
  cases (splitTerms text).mapM Term.parse <;> simp [Except.map]

theorem HasBareBreak.parse_eq (h : HasBareBreak text) :
    ∃ number, parse text = .error (.conversion (.notADouble number)) := by
  obtain ⟨before, chunk, after, whole, accepted, bare⟩ := h
  obtain ⟨number, refused⟩ := bare.parse_eq
  exact ⟨number, parse_eq_error_iff.mpr ⟨before, chunk, after, whole, accepted, refused⟩⟩

theorem failsByGrammar_of_not_hasBareBreak (h : ¬ HasBareBreak text) : FailsByGrammar (parse text) := by
  intro e refused
  obtain ⟨before, chunk, after, whole, accepted, refused⟩ := parse_eq_error_iff.mp refused
  refine Term.failsByGrammar_of_not_hasBareBreak (fun bare => h ?_) e refused
  exact ⟨before, chunk, after, whole, accepted, bare⟩

end Member

theorem not_failsByGrammar_of_conversion {α : Type} {result : Except Error α}
    (h : ∃ number, result = .error (.conversion (.notADouble number))) : ¬ FailsByGrammar result := by
  intro grammar
  obtain ⟨number, refused⟩ := h
  obtain ⟨p, other⟩ := grammar _ refused
  cases other

/-- A term or a side that cannot be read is refused as text outside the grammar, unless a number is a line break:
exactly then it is refused as a number text that is none. -/
theorem parse_refusals (text : String) :
    (FailsByGrammar (Term.parse text) ↔ ¬ Term.HasBareBreak text) ∧
    (Term.HasBareBreak text → ∃ number, Term.parse text = .error (.conversion (.notADouble number))) ∧
    (FailsByGrammar (Member.parse text) ↔ ¬ Member.HasBareBreak text) ∧
    (Member.HasBareBreak text → ∃ number, Member.parse text = .error (.conversion (.notADouble number))) := by
  refine ⟨⟨fun grammar bare => ?_, Term.failsByGrammar_of_not_hasBareBreak⟩, Term.HasBareBreak.parse_eq,
    ⟨fun grammar bare => ?_, Member.failsByGrammar_of_not_hasBareBreak⟩, Member.HasBareBreak.parse_eq⟩
  · exact not_failsByGrammar_of_conversion bare.parse_eq grammar
  · exact not_failsByGrammar_of_conversion bare.parse_eq grammar

/-- A line break alone is refused as a number, as a term and behind another one. -/
theorem parse_lineBreak : ¬ FailsByGrammar (Term.parse "\n") ∧ ¬ FailsByGrammar (Member.parse "x-\n") := by
  have term : Term.parse "\n" = .error (.conversion (.notADouble "\n")) := by decide +kernel
  have side : Member.parse "x-\n" = .error (.conversion (.notADouble "-\n")) := by decide +kernel
  exact ⟨not_failsByGrammar_of_conversion ⟨_, term⟩, not_failsByGrammar_of_conversion ⟨_, side⟩⟩

end FunctionStudy
