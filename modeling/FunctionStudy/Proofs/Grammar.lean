import FunctionStudy.Equation
import FunctionStudy.Proofs.Grammar.Term

/-! The grammar of equations. A text is read as an equation exactly where, without its blanks, it is
the spelling of one: two sides of terms around a single equals sign. -/

namespace FunctionStudy

variable {cs : List Char}

section Sides

theorem TermSpelling.exists_cons (t : TermSpelling) :
    ∃ c body, t.chars = c :: body ∧ (∀ d ∈ body, isSign d = false) ∧ isSign c = t.sign.isSome := by
  obtain ⟨sign, body⟩ := t
  cases sign with
  | none =>
    obtain ⟨c, rest, shape⟩ := List.exists_cons_of_ne_nil body.chars_ne_nil
    have unsigned : ∀ d ∈ c :: rest, isSign d = false := fun d hd =>
      body.not_sign_of_mem (shape ▸ hd)
    exact ⟨c, rest, shape, fun d hd => unsigned d (by simp [hd]), unsigned c (by simp)⟩
  | some negative =>
    exact ⟨_, body.chars, rfl, fun d hd => body.not_sign_of_mem hd, isSign_sign negative⟩

theorem isSign_head_flatMap {ts : List TermSpelling} (signed : ∀ t ∈ ts, t.sign.isSome = true) :
    ∀ c ∈ (ts.flatMap TermSpelling.chars).head?, isSign c = true := by
  intro c hc
  cases ts with
  | nil => cases hc
  | cons t ts =>
    obtain ⟨d, body, shape, -, first⟩ := t.exists_cons
    obtain rfl : d = c := by simpa [shape] using hc
    rw [first]
    exact signed t (by simp)

theorem chunks_flatMap_terms {t : TermSpelling} {ts : List TermSpelling}
    (signed : ∀ t ∈ ts, t.sign.isSome = true) :
    chunks isSign ((t :: ts).flatMap TermSpelling.chars) = (t :: ts).map TermSpelling.chars := by
  induction ts generalizing t with
  | nil =>
    obtain ⟨c, body, shape, unsigned, -⟩ := t.exists_cons
    have single : chunks isSign (c :: (body ++ [])) = (c :: body) :: chunks isSign [] :=
      chunks_cons unsigned (by simp)
    simpa [shape] using single
  | cons u ts ih =>
    obtain ⟨c, body, shape, unsigned, -⟩ := t.exists_cons
    have others : ∀ t ∈ ts, t.sign.isSome = true := fun t ht => signed t (by simp [ht])
    rw [List.flatMap_cons, shape, List.cons_append,
      chunks_cons unsigned (isSign_head_flatMap signed), ih others, ← shape]
    rfl

namespace SideSpelling

theorem chunks_chars (s : SideSpelling) :
    chunks isSign s.chars = s.terms.map TermSpelling.chars := chunks_flatMap_terms s.signed

theorem chars_injective : Function.Injective SideSpelling.chars := by
  intro s t h
  have terms : s.terms.map TermSpelling.chars = t.terms.map TermSpelling.chars := by
    rw [← s.chunks_chars, ← t.chunks_chars, h]
  have same := List.map_injective_iff.mpr TermSpelling.chars_injective terms
  obtain ⟨first, rest, _⟩ := s
  obtain ⟨first', rest', _⟩ := t
  obtain ⟨rfl, rfl⟩ := List.cons.inj same
  rfl

theorem chars_ne_nil (s : SideSpelling) : s.chars ≠ [] := by
  obtain ⟨c, body, shape, -⟩ := s.first.exists_cons
  simp [chars, terms, shape]

theorem mem_chars {s : SideSpelling} {c : Char} (h : c ∈ s.chars) :
    c = '+' ∨ c = '-' ∨ ∃ t ∈ s.terms, c ∈ t.body.chars := by
  obtain ⟨t, ht, hc⟩ := List.mem_flatMap.mp h
  rw [TermSpelling.chars, List.mem_append] at hc
  rcases hc with sign | body
  · cases signed : t.sign with
    | none =>
      rw [signed] at sign
      cases sign
    | some negative =>
      rw [signed] at sign
      obtain rfl := List.mem_singleton.mp sign
      cases negative
      · exact .inl rfl
      · exact .inr (.inl rfl)
  · exact .inr (.inr ⟨t, ht, body⟩)

theorem not_blank_of_mem {s : SideSpelling} {c : Char} (h : c ∈ s.chars) :
    Text.isBlank c = false := by
  rcases mem_chars h with rfl | rfl | ⟨t, -, hc⟩
  · rfl
  · rfl
  · exact t.body.not_blank_of_mem hc

theorem ne_of_mem_chars {s : SideSpelling} {c : Char} (h : c ∈ s.chars) {d : Char}
    (hd : d ∈ ['=', '\n']) : c ≠ d := by
  rintro rfl
  rcases mem_chars h with rfl | rfl | ⟨t, -, hc⟩
  · exact absurd hd (by decide)
  · exact absurd hd (by decide)
  · exact t.body.ne_of_mem_chars hc (by simp only [List.mem_cons] at hd ⊢; tauto) rfl

theorem parse_chars (s : SideSpelling) : Member.parse (String.ofList s.chars) = .ok s.member := by
  have read : ∀ t ∈ s.terms, (Term.parse ∘ String.ofList ∘ TermSpelling.chars) t = .ok t.term :=
    fun t _ => t.parse_chars
  rw [Member.parse, splitTerms, String.toList_ofList, s.chunks_chars, List.map_map, List.mapM_map,
    mapM_eq_ok read]
  rfl

end SideSpelling

theorem exists_sideSpelling (some : cs ≠ []) (noBreak : '\n' ∉ cs) {m : Member}
    (h : Member.parse (String.ofList cs) = .ok m) : ∃ s : SideSpelling, s.chars = cs := by
  have whole := flatten_chunks isSign cs
  rw [Member.parse, splitTerms, String.toList_ofList, List.mapM_map] at h
  cases read : (chunks isSign cs).mapM (Term.parse ∘ String.ofList) with
  | error e =>
    rw [read] at h
    cases h
  | ok terms =>
    have spelled : ∀ chunk ∈ chunks isSign cs, ∃ t : TermSpelling, t.chars = chunk := by
      intro chunk member
      obtain ⟨i, inside, found⟩ := List.getElem_of_mem member
      have each := forall₂_of_mapM read
      have term := each.get inside (each.length_eq ▸ inside)
      rw [List.get_eq_getElem, found] at term
      refine exists_termSpelling (fun line => noBreak ?_) term
      rw [← whole]
      exact List.mem_flatten.mpr ⟨chunk, member, line⟩
    obtain ⟨terms, hterms⟩ := (Set.range_list_map TermSpelling.chars).ge spelled
    obtain ⟨c, tail, rfl⟩ := List.exists_cons_of_ne_nil some
    have later := (isSplit_chunks isSign (c :: tail)).delimited
    rw [← hterms] at later whole
    cases terms with
    | nil => cases whole
    | cons first rest =>
      refine ⟨⟨first, rest, fun t ht => ?_⟩, whole⟩
      obtain ⟨d, starts, sign⟩ := later t.chars (List.mem_map_of_mem ht)
      obtain ⟨d', body, shape, -, first'⟩ := t.exists_cons
      rw [shape] at starts
      obtain rfl : d' = d := Option.some.inj starts
      rw [← first', sign]

end Sides

/-- Two sides with an equals sign between them. -/
structure EquationSpelling where
  left : SideSpelling
  right : SideSpelling

namespace EquationSpelling

def chars (s : EquationSpelling) : List Char := s.left.chars ++ '=' :: s.right.chars

def equation (s : EquationSpelling) : Equation := ⟨s.left.member, s.right.member⟩

end EquationSpelling

section Equations

theorem SideSpelling.equals_notMem (s : SideSpelling) : '=' ∉ s.chars := fun h =>
  ne_of_mem_chars h (by simp) rfl

/-- The text is cut at an equals sign that stands alone, between two sides that are there. -/
theorem splitSides_eq_ok_iff {text left right : String} :
    splitSides text = .ok (left, right) ↔
      (Text.stripBlanks text).toList = left.toList ++ '=' :: right.toList ∧
        '=' ∉ left.toList ∧ '=' ∉ right.toList ∧ left.toList ≠ [] ∧ right.toList ≠ [] := by
  rw [splitSides, Text.toList_stripBlanks]
  generalize text.toList.filter (fun c => !Text.isBlank c) = cs
  constructor
  · intro h
    split_ifs at h with _ missing second empty
    cases h
    rcases cut_cases '=' cs with ⟨-, none⟩ | ⟨rest, cut⟩
    · exact absurd (by simpa using none) missing
    · have parts := List.takeWhile_append_dropWhile (p := (· != '=')) (l := cs)
      have before : '=' ∉ cs.takeWhile (· != '=') := fun member => by
        simpa using List.mem_takeWhile_imp member
      rw [cut, List.drop_one, List.tail_cons] at second empty
      rw [cut] at parts
      simp only [Bool.or_eq_true, List.isEmpty_iff, not_or] at empty
      rw [cut, String.toList_ofList, String.toList_ofList, List.drop_one, List.tail_cons]
      exact ⟨parts.symm, before, by simpa using second, empty.1, empty.2⟩
  · rintro ⟨rfl, before, after, someLeft, someRight⟩
    obtain ⟨first, cut⟩ := Text.span_append (p := (· != '=')) left.toList ('=' :: right.toList)
      (fun c hc => bne_iff_ne.mpr fun same => before (same ▸ hc)) (by simp)
    simp [first, cut, after, someLeft, someRight]

theorem splitSides_failsByGrammar (text : String) : FailsByGrammar (splitSides text) := by
  unfold splitSides
  dsimp only
  split_ifs
  · exact .parse _
  · exact .parse _
  · exact .parse _
  · exact .parse _
  · exact .ok _

theorem EquationSpelling.chars_injective : Function.Injective EquationSpelling.chars := by
  have split : ∀ s : EquationSpelling, s.chars.takeWhile (· != '=') = s.left.chars ∧
      s.chars.dropWhile (· != '=') = '=' :: s.right.chars := fun s =>
    Text.span_append _ _
      (fun c hc => bne_iff_ne.mpr fun same => s.left.equals_notMem (same ▸ hc)) (by simp)
  intro s t h
  obtain ⟨leftS, rightS⟩ := split s
  obtain ⟨leftT, rightT⟩ := split t
  rw [h] at leftS rightS
  obtain ⟨left, right⟩ := s
  obtain ⟨left', right'⟩ := t
  obtain rfl : left = left' := SideSpelling.chars_injective (leftS.symm.trans leftT)
  obtain rfl : right = right' :=
    SideSpelling.chars_injective (List.cons.inj (rightS.symm.trans rightT)).2
  rfl

theorem newline_notMem_stripBlanks (text : String) : '\n' ∉ (Text.stripBlanks text).toList := by
  intro h
  rw [Text.toList_stripBlanks] at h
  exact absurd (List.mem_filter.mp h).2 (by decide)

namespace Equation

variable {text : String}

theorem parse_chars {s : EquationSpelling} (h : (Text.stripBlanks text).toList = s.chars) :
    parse text = .ok s.equation := by
  have sides : splitSides text = .ok (String.ofList s.left.chars, String.ofList s.right.chars) := by
    rw [splitSides_eq_ok_iff]
    simp only [String.toList_ofList]
    exact ⟨h, s.left.equals_notMem, s.right.equals_notMem, s.left.chars_ne_nil, s.right.chars_ne_nil⟩
  rw [parse, sides]
  simp only [bind, Except.bind, s.left.parse_chars, s.right.parse_chars]
  rfl

theorem exists_spelling {f : Equation} (h : parse text = .ok f) :
    ∃ s : EquationSpelling, s.chars = (Text.stripBlanks text).toList := by
  cases sides : splitSides text with
  | error e =>
    rw [parse, sides] at h
    cases h
  | ok pair =>
    obtain ⟨left, right⟩ := pair
    obtain ⟨whole, -, -, someLeft, someRight⟩ := splitSides_eq_ok_iff.mp sides
    have noBreak := newline_notMem_stripBlanks text
    rw [whole, List.mem_append, List.mem_cons, not_or, not_or] at noBreak
    cases readLeft : Member.parse left with
    | error e =>
      simp only [parse, sides, bind, Except.bind, readLeft] at h
      cases h
    | ok m =>
      cases readRight : Member.parse right with
      | error e =>
        simp only [parse, sides, bind, Except.bind, readLeft, readRight] at h
        cases h
      | ok n =>
        rw [← String.ofList_toList (s := left)] at readLeft
        rw [← String.ofList_toList (s := right)] at readRight
        obtain ⟨l, hl⟩ := exists_sideSpelling someLeft noBreak.1 readLeft
        obtain ⟨r, hr⟩ := exists_sideSpelling someRight noBreak.2.2 readRight
        exact ⟨⟨l, r⟩, by rw [EquationSpelling.chars, hl, hr, whole]⟩

theorem parse_failsByGrammar (text : String) : FailsByGrammar (parse text) := by
  have member : ∀ side : String, '\n' ∉ side.toList → FailsByGrammar (Member.parse side) := by
    intro side noBreak
    have terms : FailsByGrammar ((splitTerms side).mapM Term.parse) := by
      refine .mapM fun chunk hchunk => ?_
      obtain ⟨cs, hcs, rfl⟩ := List.mem_map.mp hchunk
      refine Term.parse_failsByGrammar fun line => noBreak ?_
      rw [← flatten_chunks isSign side.toList]
      exact List.mem_flatten.mpr ⟨cs, hcs, line⟩
    intro e h
    cases read : (splitTerms side).mapM Term.parse with
    | error e' =>
      rw [Member.parse, read] at h
      cases h
      exact terms e read
    | ok ts =>
      rw [Member.parse, read] at h
      cases h
  refine .bind (splitSides_failsByGrammar text) fun pair sides => ?_
  obtain ⟨left, right⟩ := pair
  have whole := (splitSides_eq_ok_iff.mp sides).1
  have noBreak := newline_notMem_stripBlanks text
  rw [whole, List.mem_append, List.mem_cons, not_or, not_or] at noBreak
  exact .bind (member left noBreak.1) fun m _ => .bind (member right noBreak.2.2) fun n _ => .ok _

/-- Exactly the texts of the grammar are read, each in the one way that it is spelled. -/
theorem parse_exact (text : String) :
    ((∃ f, parse text = .ok f) ↔
      ∃ left right : List Char, (Text.stripBlanks text).toList = left ++ '=' :: right ∧
        '=' ∉ left ∧ '=' ∉ right ∧ left ≠ [] ∧ right ≠ [] ∧
        (∃ s : SideSpelling, s.chars = left) ∧ ∃ s : SideSpelling, s.chars = right) ∧
    (∀ f, parse text = .ok f →
      ∃ s : EquationSpelling, s.chars = (Text.stripBlanks text).toList ∧ f = s.equation ∧
        ∀ s' : EquationSpelling, s'.chars = (Text.stripBlanks text).toList → s' = s) ∧
    ∀ e, parse text = .error e → ∃ p, e = .parse p := by
  refine ⟨⟨?_, ?_⟩, ?_, parse_failsByGrammar text⟩
  · rintro ⟨f, h⟩
    obtain ⟨s, spelled⟩ := exists_spelling h
    exact ⟨s.left.chars, s.right.chars, spelled.symm, s.left.equals_notMem, s.right.equals_notMem,
      s.left.chars_ne_nil, s.right.chars_ne_nil, ⟨s.left, rfl⟩, s.right, rfl⟩
  · rintro ⟨_, _, whole, -, -, -, -, ⟨left, rfl⟩, right, rfl⟩
    exact ⟨_, parse_chars (s := ⟨left, right⟩) whole⟩
  · intro f h
    obtain ⟨s, spelled⟩ := exists_spelling h
    have read := parse_chars spelled.symm
    rw [h] at read
    refine ⟨s, spelled, Except.ok.inj read, fun s' spelled' => ?_⟩
    exact EquationSpelling.chars_injective (spelled'.trans spelled.symm)

example : (parse "- .5 x',^2.0\n = y").map Equation.text = .ok "-0.5x'^2=y" := by decide +kernel

end Equation

end Equations

end FunctionStudy
