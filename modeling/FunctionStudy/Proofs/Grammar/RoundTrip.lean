import FunctionStudy.Proofs.Decimal.Reread
import FunctionStudy.Proofs.Grammar

/-! Reading written members again. The text of a member is cut at the old terms, and reading it
changes nothing but the numbers, each of which becomes the one that its own text is read as. -/

namespace FunctionStudy

section Numbers

def Numeral.spelling (n : Numeral) : FixedSpelling where
  whole := ⟨n.whole, n.whole_ne_nil, fun c hc => Text.isDigit_of_ascii (n.whole_digits c hc)⟩
  places :=
    if nonempty : n.places ≠ [] then
      some ⟨n.places, nonempty, fun c hc => Text.isDigit_of_ascii (n.places_digits c hc)⟩
    else none

theorem Numeral.chars_spelling (n : Numeral) : n.spelling.chars = n.chars := by
  rw [FixedSpelling.chars, chars, spelling]
  by_cases none : n.places = []
  · simp [none]
  · simp [none]

theorem Numeral.decimal_spelling (n : Numeral) (negative : Bool) :
    n.spelling.decimal negative = n.decimal negative := by
  rw [FixedSpelling.decimal, decimal, spelling]
  by_cases none : n.places = []
  · simp [none]
  · simp [none]

theorem Binary64.reread_intCast {x : Binary64} {z : ℤ} (hx : x.toRat? = some (z : ℚ)) (nonzero : z ≠ 0)
    (small : |z| ≤ 2 ^ 53) : x.reread = .ofInt z := by
  have size : z.natAbs ≤ 2 ^ 53 := by
    rw [Int.abs_eq_natAbs] at small
    exact_mod_cast small
  have value := toBinary64_natural size (Int.natAbs_ne_zero.mpr nonzero) (decide (z < 0))
  rw [reread_eq (Decimal.toList_plainText_intCast hx), Numeral.decimal_ofNat, value]
  by_cases negative : z < 0
  · rw [decide_eq_true negative, if_pos rfl]
    congr 1
    omega
  · rw [decide_eq_false negative, if_neg Bool.false_ne_true]
    congr 1
    omega

end Numbers

section Terms

/-- A letter with primes, and a positive exponent. -/
structure Literal.IsWritable (l : Literal) : Prop where
  letter : ∃ c primes, l.letter.toList = c :: primes ∧ c.isAlpha = true ∧ ∀ p ∈ primes, p = '\''
  finite : l.exponent.isFinite = true
  positive : l.exponent.isPositive = true

structure Term.IsWritable (t : Term) : Prop where
  finite : t.coefficient.isFinite = true
  literal : ∀ l, t.literal = some l → l.IsWritable

def Literal.reread (l : Literal) : Literal := { letter := l.letter, exponent := l.exponent.reread }

def Term.reread (t : Term) : Term := ⟨t.coefficient.reread, t.literal.map Literal.reread⟩

theorem Literal.IsWritable.exists_spelling {l : Literal} (h : l.IsWritable) :
    ∃ s : LiteralSpelling, s.chars = l.format.toList ∧ s.literal = l.reread := by
  obtain ⟨c, primes, shape, alpha, isPrime⟩ := h.letter
  obtain ⟨e, he⟩ := Option.isSome_iff_exists.mp h.finite
  have positive : 0 < e := (Binary64.isPositive_iff he).mp h.positive
  have nonzero : l.exponent.isZero = false := by
    rw [← Bool.not_eq_true, Binary64.isZero_iff he]
    exact positive.ne'
  have marks : ∀ p ∈ primes, p = '\'' ∨ p = '.' ∨ p = ',' := fun p hp => .inl (isPrime p hp)
  have kept : primes.filter (fun c => c != ',' && c != '.') = primes := by
    rw [List.filter_eq_self]
    intro p hp
    rw [isPrime p hp]
    rfl
  have name : String.ofList (c :: primes) = l.letter := by rw [← shape, String.ofList_toList]
  have unit := Binary64.same_iff he (Binary64.toRat?_ofInt (n := 1) (by norm_num))
  by_cases one : l.exponent.same (.ofInt 1) = true
  · refine ⟨⟨c, alpha, primes, marks, none⟩, ?_, ?_⟩
    · simp [LiteralSpelling.chars, LiteralSpelling.exponentChars, format, one, shape]
    · have value := Binary64.reread_intCast (z := 1) (by rw [he, unit.mp one]) (by decide) (by decide)
      simp [LiteralSpelling.literal, kept, name, reread, value]
  · obtain ⟨n, hn⟩ := Decimal.exists_numeral he
    rw [decide_eq_false positive.not_gt] at hn
    have written : (Decimal.plainText l.exponent).toList = n.chars := hn
    refine ⟨⟨c, alpha, primes, marks, some n.spelling⟩, ?_, ?_⟩
    · simp [LiteralSpelling.chars, LiteralSpelling.exponentChars, format, one, nonzero, shape,
        n.chars_spelling, written]
    · simp [LiteralSpelling.literal, kept, name, reread, Binary64.reread_eq hn, n.decimal_spelling]

theorem Term.IsWritable.exists_spelling {t : Term} (h : t.IsWritable) :
    ∃ s : TermSpelling, s.sign.isSome = true ∧ s.chars = (t.format false).toList ∧
      s.term = t.reread := by
  obtain ⟨coefficient, literal⟩ := t
  obtain ⟨v, hv⟩ := Option.isSome_iff_exists.mp h.finite
  obtain ⟨n, hn⟩ := Decimal.exists_numeral hv
  have number := toList_signed hn
  have value : (n.spelling.decimal (decide (v < 0))).toBinary64 = coefficient.reread := by
    rw [n.decimal_spelling, Binary64.reread_eq hn]
  cases literal with
  | none =>
    refine ⟨⟨some (decide (v < 0)), .number (.fixed n.spelling)⟩, rfl, ?_, ?_⟩
    · simp only [format, Bool.false_eq_true, if_false]
      rw [number, ← n.chars_spelling]
      simp [TermSpelling.chars, TermSpelling.signChars, BodySpelling.chars, BodySpelling.numberChars,
        BodySpelling.literalChars, NumberSpelling.chars]
    · exact congrArg₂ Term.mk value rfl
  | some l =>
    obtain ⟨L, written, meaning⟩ := (h.literal l rfl).exists_spelling
    have plus := Binary64.same_iff hv (Binary64.toRat?_ofInt (n := 1) (by norm_num))
    have minus := Binary64.same_iff hv (Binary64.toRat?_ofInt (n := -1) (by norm_num))
    by_cases one : coefficient.same (.ofInt 1) = true
    · have unit := Binary64.reread_intCast (z := 1) (by rw [hv, plus.mp one]) (by decide) (by decide)
      refine ⟨⟨some false, .power none L⟩, rfl, ?_, ?_⟩
      · simp only [format, one, if_true, String.toList_append, ← written]
        rfl
      · exact congrArg₂ Term.mk unit.symm (congrArg some meaning)
    by_cases opposite : coefficient.same (.ofInt (-1)) = true
    · have unit := Binary64.reread_intCast (z := -1) (by rw [hv, minus.mp opposite]) (by decide)
        (by decide)
      refine ⟨⟨some true, .power none L⟩, rfl, ?_, ?_⟩
      · simp only [format, one, opposite, Bool.false_eq_true, if_false, if_true, String.toList_append,
          ← written]
        rfl
      · exact congrArg₂ Term.mk unit.symm (congrArg some meaning)
    refine ⟨⟨some (decide (v < 0)), .power (some (.fixed n.spelling)) L⟩, rfl, ?_, ?_⟩
    · simp only [format, one, opposite, Bool.false_eq_true, if_false, String.toList_append]
      rw [number, ← n.chars_spelling, ← written]
      rfl
    · exact congrArg₂ Term.mk value (congrArg some meaning)

end Terms

section Members

/-- Terms that can be written, at least one of them. -/
structure Member.IsWritable (m : Member) : Prop where
  terms_ne_nil : m.terms ≠ []
  terms : ∀ t ∈ m.terms, t.IsWritable

def Member.reread (m : Member) : Member := ⟨m.terms.map Term.reread⟩

theorem exists_termSpellings {ts : List Term} (h : ∀ t ∈ ts, t.IsWritable) :
    ∃ ss : List TermSpelling, (∀ s ∈ ss, s.sign.isSome = true) ∧
      ss.map TermSpelling.chars = ts.map (fun t => (t.format false).toList) ∧
      ss.map TermSpelling.term = ts.map Term.reread := by
  induction ts with
  | nil => exact ⟨[], by simp, rfl, rfl⟩
  | cons t ts ih =>
    obtain ⟨s, signed, chars, term⟩ := (h t (by simp)).exists_spelling
    obtain ⟨ss, signs, texts, terms⟩ := ih fun u hu => h u (by simp [hu])
    refine ⟨s :: ss, ?_, by simp [chars, texts], by simp [term, terms]⟩
    intro u hu
    rcases List.mem_cons.mp hu with rfl | hu
    · exact signed
    · exact signs u hu

theorem Member.toList_text_eq (m : Member) {cs : List Char} (negative : Bool)
    (h : (m.terms.flatMap fun t => (t.format false).toList) = SignedText.sign negative :: cs)
    (some : cs ≠ []) : m.text.toList = if negative then '-' :: cs else cs := by
  have joined : (String.join (m.terms.map (·.format false))).toList = SignedText.sign negative :: cs := by
    rw [String.toList_join, List.flatMap_map, h]
  rw [text, format, joined]
  cases negative with
  | true => simp [SignedText.sign]
  | false =>
    obtain ⟨c, rest, rfl⟩ := List.exists_cons_of_ne_nil some
    simp [SignedText.sign]

/-- The text of a member is a side, which means what the numbers of its terms are read as. -/
theorem Member.IsWritable.exists_spelling {m : Member} (h : m.IsWritable) :
    ∃ s : SideSpelling, s.chars = m.text.toList ∧ s.member = m.reread := by
  obtain ⟨ss, signed, texts, terms⟩ := exists_termSpellings h.terms
  have whole : (m.terms.flatMap fun t => (t.format false).toList) = ss.flatMap TermSpelling.chars := by
    rw [List.flatMap_def, ← texts, ← List.flatMap_def]
  cases ss with
  | nil => exact absurd (List.map_eq_nil_iff.mp texts.symm) h.terms_ne_nil
  | cons first rest =>
    obtain ⟨sign, body⟩ := first
    obtain ⟨negative, rfl⟩ := Option.isSome_iff_exists.mp (signed ⟨sign, body⟩ (by simp))
    have others : ∀ t ∈ rest, t.sign.isSome = true := fun t ht => signed t (by simp [ht])
    have text := m.toList_text_eq negative whole
      (List.append_ne_nil_of_left_ne_nil body.chars_ne_nil _)
    -- A plus in front is dropped, which leaves the term what it is.
    refine ⟨⟨⟨if negative then some true else none, body⟩, rest, others⟩, ?_, ?_⟩
    · rw [text]
      cases negative <;> rfl
    · rw [reread, ← terms]
      cases negative <;> rfl

theorem Member.IsWritable.parse_text {m : Member} (h : m.IsWritable) : parse m.text = .ok m.reread := by
  obtain ⟨s, chars, member⟩ := h.exists_spelling
  rw [← String.ofList_toList (s := m.text), ← chars, s.parse_chars, member]

end Members

section Equations

namespace EquationSpelling

theorem stripBlanks_chars (s : EquationSpelling) :
    (Text.stripBlanks (String.ofList s.chars)).toList = s.chars := by
  rw [Text.toList_stripBlanks, String.toList_ofList, List.filter_eq_self]
  intro c hc
  rw [chars, List.mem_append, List.mem_cons] at hc
  rcases hc with hc | rfl | hc
  · rw [s.left.not_blank_of_mem hc, Bool.not_false]
  · rfl
  · rw [s.right.not_blank_of_mem hc, Bool.not_false]

end EquationSpelling

theorem Equation.parse_text {f : Equation} (left : f.left.IsWritable) (right : f.right.IsWritable) :
    parse f.text = .ok ⟨f.left.reread, f.right.reread⟩ := by
  obtain ⟨l, leftChars, leftMember⟩ := left.exists_spelling
  obtain ⟨r, rightChars, rightMember⟩ := right.exists_spelling
  have text : f.text = String.ofList (EquationSpelling.mk l r).chars := by
    rw [EquationSpelling.chars, leftChars, rightChars, ← String.toList_inj]
    simp [Equation.text, Equation.format, Member.text]
  rw [text, parse_chars (EquationSpelling.stripBlanks_chars _), EquationSpelling.equation,
    leftMember, rightMember]

end Equations

section Same

/-- Every number of the term is read back. -/
def Term.ReadsBack (t : Term) : Prop :=
  t.coefficient.ReadsBack ∧ ∀ l, t.literal = some l → l.exponent.ReadsBack

theorem Term.ReadsBack.same_reread {t : Term} (h : t.ReadsBack) : t.reread.same t = true := by
  obtain ⟨coefficient, literal⟩ := t
  have number := h.1.same_reread
  cases literal with
  | none => simpa [same, reread] using number
  | some l =>
    have exponent := (h.2 l rfl).same_reread
    simpa [same, reread, Literal.same, Literal.reread] using ⟨number, exponent⟩

theorem Member.same_reread {m : Member} (h : ∀ t ∈ m.terms, t.ReadsBack) : m.reread.same m = true := by
  have pairs : (m.terms.map Term.reread).zip m.terms = m.terms.map fun t => (t.reread, t) := by
    simpa using List.zip_map' (l := m.terms) (f := Term.reread) (g := id)
  rw [same, reread, pairs, List.all_map, Bool.and_eq_true, List.all_eq_true]
  exact ⟨by simp, fun t ht => (h t ht).same_reread⟩

/-- Reading undoes writing: the old terms come back in the old order, numerically equal. -/
theorem parse_undoes_text :
    (∀ m : Member, m.IsWritable → (∀ t ∈ m.terms, t.ReadsBack) →
      ∃ n, Member.parse m.text = .ok n ∧ n.same m = true) ∧
    ∀ f : Equation, (f.left.IsWritable ∧ f.right.IsWritable) →
      (∀ t ∈ f.left.terms ++ f.right.terms, t.ReadsBack) →
      ∃ g, Equation.parse f.text = .ok g ∧ g.same f = true := by
  constructor
  · intro m writable back
    exact ⟨m.reread, writable.parse_text, Member.same_reread back⟩
  · intro f ⟨left, right⟩ back
    have leftSame := Member.same_reread fun t ht => back t (List.mem_append_left _ ht)
    have rightSame := Member.same_reread fun t ht => back t (List.mem_append_right _ ht)
    refine ⟨_, Equation.parse_text left right, ?_⟩
    rw [Equation.same, leftSame, rightSame]
    rfl

def primedSquare : Member :=
  ⟨[⟨.ofInt 2, some { letter := "x'", exponent := .ofInt 2 }⟩,
    ⟨.round (-1 / 2), some { letter := "x", exponent := .ofInt 1 }⟩, .constant (.ofInt 3)]⟩

example : primedSquare.text = "2x'^2-0.5x+3" := by decide +kernel

theorem parse_undoes_text_primedSquare :
    (∃ n, Member.parse primedSquare.text = .ok n ∧ n.same primedSquare = true) ∧
      ∃ g, Equation.parse (Equation.text ⟨primedSquare, primedSquare⟩) = .ok g ∧
        g.same ⟨primedSquare, primedSquare⟩ = true := by
  have writable : primedSquare.IsWritable := by
    refine ⟨by decide, ?_⟩
    simp only [primedSquare, List.forall_mem_cons, List.not_mem_nil, false_imp_iff, implies_true, and_true]
    refine ⟨⟨by decide +kernel, ?_⟩, ⟨by decide +kernel, ?_⟩, by decide +kernel, by simp [Term.constant]⟩
    · rintro _ ⟨⟩
      exact ⟨⟨'x', ['\''], rfl, rfl, by simp⟩, by decide +kernel, by decide +kernel⟩
    · rintro _ ⟨⟩
      exact ⟨⟨'x', [], rfl, rfl, by simp⟩, by decide +kernel, by decide +kernel⟩
  have back : ∀ t ∈ primedSquare.terms, t.ReadsBack := by
    simp only [primedSquare, List.forall_mem_cons, List.not_mem_nil, false_imp_iff, implies_true, and_true]
    refine ⟨⟨by decide +kernel, ?_⟩, ⟨by decide +kernel, ?_⟩, by decide +kernel, by simp [Term.constant]⟩
    · rintro _ ⟨⟩
      decide +kernel
    · rintro _ ⟨⟩
      decide +kernel
  have both : ∀ t ∈ primedSquare.terms ++ primedSquare.terms, t.ReadsBack := by simpa using back
  exact ⟨parse_undoes_text.1 _ writable back, parse_undoes_text.2 _ ⟨writable, writable⟩ both⟩

end Same

end FunctionStudy
