import FunctionStudy.Proofs.Ruffini.Splitting

/-! The letter of a split. A text with primes cannot be read as a formula, so a polynomial that is
split has a letter without primes, and its linear divisor is read back in that letter. -/

namespace FunctionStudy

section Literals

/-- The literal parts of the terms. -/
def Member.literals (m : Member) : List Literal := m.terms.filterMap (·.literal)

def Equation.literals (f : Equation) : List Literal := f.left.literals ++ f.right.literals

theorem Member.mem_literals {m : Member} {l : Literal} :
    l ∈ m.literals ↔ ∃ t ∈ m.terms, t.literal = some l := List.mem_filterMap

theorem literals_subset {ts us : List Term} (h : ∀ t ∈ ts, t.literal = none ∨ ∃ u ∈ us, u.literal = t.literal) :
    (Member.mk ts).literals ⊆ (Member.mk us).literals := by
  intro l hl
  obtain ⟨t, ht, literal⟩ := Member.mem_literals.mp hl
  rcases h t ht with none | ⟨u, hu, same⟩
  · rw [none] at literal
    cases literal
  · exact Member.mem_literals.mpr ⟨u, hu, same.trans literal⟩

theorem literals_append (ts us : List Term) :
    (Member.mk (ts ++ us)).literals = (Member.mk ts).literals ++ (Member.mk us).literals :=
  List.filterMap_append

theorem Member.normalize_literals (m : Member) : m.normalize.literals ⊆ m.literals :=
  literals_subset fun t ht => .inr ⟨t, List.mem_mergeSort.mp ht, rfl⟩

theorem Member.negated_literals (m : Member) : m.negated.literals ⊆ m.literals := by
  refine literals_subset fun t ht => ?_
  obtain ⟨u, hu, rfl⟩ := List.mem_map.mp ht
  exact .inr ⟨u, hu, rfl⟩

theorem Member.simplify_literals (m : Member) : m.simplify.literals ⊆ m.literals := by
  have grouped : ∀ ts (seen : List (String × Option Literal)),
      (∀ g ∈ seen, g.2 = none ∨ ∃ t ∈ m.terms, t.literal = g.2) → ts ⊆ m.terms →
      ∀ g ∈ ts.foldl groupWith seen, g.2 = none ∨ ∃ t ∈ m.terms, t.literal = g.2 := by
    intro ts
    induction ts with
    | nil => exact fun seen h _ => h
    | cons t ts ih =>
      intro seen h sub
      refine ih _ (fun g hg => ?_) fun u hu => sub (List.mem_cons_of_mem t hu)
      unfold groupWith at hg
      split_ifs at hg
      · exact h g hg
      · rcases List.mem_append.mp hg with old | new
        · exact h g old
        · obtain rfl := List.mem_singleton.mp new
          exact .inl rfl
      · rcases List.mem_append.mp hg with old | new
        · exact h g old
        · obtain rfl := List.mem_singleton.mp new
          exact .inr ⟨t, sub List.mem_cons_self, rfl⟩
  refine literals_subset fun t ht => ?_
  obtain ⟨g, hg, rfl⟩ := List.mem_map.mp (List.mem_of_mem_filter ht)
  rw [groups_eq] at hg
  exact grouped m.terms [] nofun (List.Subset.refl _) g hg

theorem dropZeroConstants_subset (ts : List Term) : Equation.dropZeroConstants ts ⊆ ts := by
  unfold Equation.dropZeroConstants
  split_ifs
  · exact List.Subset.refl _
  · split
    · exact List.take_subset 1 ts
    · exact fun t ht => List.mem_of_mem_filter ht

variable {f g : Equation} {m : Member}

/-- Solving for the dependent variable moves terms and scales them. -/
theorem Equation.toExplicit_literals (h : f.toExplicit = .ok g) :
    g.right.literals ⊆ f.literals := by
  have moved : (Member.mk (dropZeroConstants
      (f.right.terms ++ (f.left.terms.filter fun t => !t.isDependent).map Term.negated))).literals ⊆
        f.literals := by
    intro l hl
    obtain ⟨t, ht, literal⟩ := Member.mem_literals.mp hl
    rcases List.mem_append.mp (dropZeroConstants_subset _ ht) with right | left
    · exact List.mem_append_right _ (Member.mem_literals.mpr ⟨t, right, literal⟩)
    · obtain ⟨u, hu, rfl⟩ := List.mem_map.mp left
      exact List.mem_append_left _ (Member.mem_literals.mpr ⟨u, List.mem_of_mem_filter hu, literal⟩)
  unfold toExplicit at h
  split_ifs at h with explicit
  · obtain rfl := Except.ok.inj h
    exact List.subset_append_right _ _
  · dsimp only at h
    split at h
    · cases h
    · split_ifs at h with cancel one one
      · cases h
      · cases h
      · obtain rfl := Except.ok.inj h
        exact List.Subset.trans (Member.normalize_literals _) moved
      · cases quotient : (Binary64.ofInt 1).div (Binary64.sum
          ((f.left.terms.filter (·.isDependent)).map (·.coefficient))) with
        | error e =>
          rw [quotient] at h
          cases h
        | ok factor =>
          rw [quotient] at h
          obtain rfl := Except.ok.inj h
          refine List.Subset.trans (Member.normalize_literals _) (List.Subset.trans ?_ moved)
          refine literals_subset fun t ht => ?_
          obtain ⟨u, hu, rfl⟩ := List.mem_map.mp ht
          exact .inr ⟨u, hu, rfl⟩

theorem Equation.polynomial_literals (h : f.polynomial = .ok m) : m.literals ⊆ f.literals := by
  unfold polynomial at h
  split_ifs at h
  · obtain rfl := Except.ok.inj h
    exact List.subset_append_right _ _
  · cases solved : f.toExplicit with
    | error e =>
      rw [solved] at h
      cases h
    | ok g =>
      rw [solved] at h
      obtain rfl := Except.ok.inj h
      exact toExplicit_literals solved
  · obtain rfl := Except.ok.inj h
    refine List.Subset.trans (Member.normalize_literals _) (List.Subset.trans (Member.simplify_literals _) ?_)
    intro l hl
    rw [literals_append] at hl
    rcases List.mem_append.mp hl with left | right
    · exact List.mem_append_left _ left
    · exact List.mem_append_right _ (f.right.negated_literals right)

end Literals

section Names

/-- Every letter is one that the grammar has: an ASCII letter, with any number of primes. -/
def Equation.HasLetterNames (f : Equation) : Prop :=
  ∀ l ∈ f.literals, Literal.isLetterName l.letter.toList = true

/-- Every letter that can be the unknown is one that the grammar has. -/
def Equation.HasUnknownNames (f : Equation) : Prop :=
  ∀ l ∈ f.literals, l.letter.startsWith "y" = false → Literal.isLetterName l.letter.toList = true

theorem Equation.HasLetterNames.unknown {f : Equation} (h : f.HasLetterNames) : f.HasUnknownNames :=
  fun l hl _ => h l hl

theorem Literal.isLetterName_of_parse {token : String} {l : Literal}
    (h : Literal.parse token = .ok (some l)) : isLetterName l.letter.toList = true := by
  unfold parse at h
  dsimp only at h
  split_ifs at h with empty powers unnamed plain
  · cases h
  · obtain rfl := Option.some.inj (Except.ok.inj h)
    rw [ofLetter, String.toList_ofList]
    simpa using unnamed
  · split at h
    · obtain rfl := Option.some.inj (Except.ok.inj h)
      rw [String.toList_ofList]
      simpa using unnamed
    · cases h

theorem Term.isLetterName_of_parse {chunk : String} {t : Term} {l : Literal}
    (h : Term.parse chunk = .ok t) (hl : t.literal = some l) :
    Literal.isLetterName l.letter.toList = true := by
  unfold parse at h
  split_ifs at h
  · cases h
  · dsimp only [bind, Except.bind, pure, Except.pure] at h
    split at h
    · cases h
    · rename_i literal parsed
      split at h
      · cases h
      · split_ifs at h
        obtain rfl := Except.ok.inj h
        obtain rfl : literal = some l := hl
        exact Literal.isLetterName_of_parse parsed

theorem Member.isLetterName_of_parse {text : String} {m : Member} {l : Literal}
    (h : Member.parse text = .ok m) (hl : l ∈ m.literals) :
    Literal.isLetterName l.letter.toList = true := by
  unfold parse at h
  cases parsed : (splitTerms text).mapM Term.parse with
  | error e =>
    rw [parsed] at h
    cases h
  | ok ts =>
    rw [parsed] at h
    obtain rfl := Except.ok.inj h
    obtain ⟨t, ht, literal⟩ := Member.mem_literals.mp hl
    have read : ∀ t ∈ ts, ∃ chunk, Term.parse chunk = .ok t := ((List.forall₂_and_left _ _).mp
      ((forall₂_of_mapM parsed).flip.imp fun _ chunk h => ⟨⟨chunk, h⟩, h⟩)).1
    obtain ⟨chunk, h⟩ := read t ht
    exact Term.isLetterName_of_parse h literal

theorem Equation.hasLetterNames_parse {text : String} {f : Equation} (h : Equation.parse text = .ok f) :
    f.HasLetterNames := by
  unfold parse at h
  dsimp only [bind, Except.bind, pure, Except.pure] at h
  split at h
  · cases h
  · split at h
    · cases h
    · rename_i left hleft
      split at h
      · cases h
      · rename_i right hright
        obtain rfl := Except.ok.inj h
        intro l hl
        rcases List.mem_append.mp hl with hl | hl
        · exact Member.isLetterName_of_parse hleft hl
        · exact Member.isLetterName_of_parse hright hl

theorem Equation.hasLetterNames_ofText {text : String} {f : Equation} (h : Equation.ofText text = .ok f) :
    f.HasLetterNames := by
  unfold ofText at h
  split_ifs at h
  · exact hasLetterNames_parse h
  · exact hasLetterNames_parse h

end Names

section Scanning

open Formula

/-- A character that no formula has. -/
structure IsForeign (k : Char) : Prop where
  punctuation : punctuation? k = none
  blank : k ≠ ' '
  letter : k.isAlpha = false
  digit : k.isDigit = false
  point : k ≠ '.'

theorem isForeign_prime : IsForeign '\'' := by constructor <;> decide

theorem isForeign_newline : IsForeign '\n' := by constructor <;> decide

variable {k : Char} {cs rest : List Char}

theorem mem_dropWhile_of_mem {p : Char → Bool} (h : p k = false) (hk : k ∈ cs) : k ∈ cs.dropWhile p := by
  rw [← List.takeWhile_append_dropWhile (p := p) (l := cs)] at hk
  rcases List.mem_append.mp hk with taken | left
  · rw [List.mem_takeWhile_imp taken] at h
    cases h
  · exact left

namespace IsForeign

variable (foreign : IsForeign k)

include foreign

theorem mem_splitSign (hk : k ∈ cs) : k ∈ (Decimal.splitSign cs).2 := by
  unfold Decimal.splitSign
  have signs : k ≠ '-' ∧ k ≠ '+' := by
    constructor <;> rintro rfl <;> cases foreign.punctuation
  split
  · exact (List.mem_cons.mp hk).resolve_left signs.1
  · exact (List.mem_cons.mp hk).resolve_left signs.2
  · exact hk

theorem mem_scale (hk : k ∈ cs) : k ∈ (scale cs).2 := by
  unfold scale
  cases cs with
  | nil => exact hk
  | cons mark rest =>
    dsimp only
    split
    · rename_i exponent
      have other : k ≠ mark := by
        rintro rfl
        rcases exponent.1 with rfl | rfl <;> cases foreign.letter
      exact mem_dropWhile_of_mem foreign.digit
        (foreign.mem_splitSign ((List.mem_cons.mp hk).resolve_left other))
    · exact hk

theorem mem_number {v : ℚ} (h : number? cs = some (v, rest)) (hk : k ∈ cs) : k ∈ rest := by
  have after := mem_dropWhile_of_mem (p := Char.isDigit) foreign.digit hk
  unfold number? at h
  dsimp only at h
  split_ifs at h
  obtain ⟨-, rfl⟩ := Prod.mk.inj (Option.some.inj h)
  refine foreign.mem_scale ?_
  split
  · rename_i more split
    rw [split] at after
    exact mem_dropWhile_of_mem foreign.digit ((List.mem_cons.mp after).resolve_left foreign.point)
  · exact after

theorem not_mem_of_scan {unknown : String} {fuel : ℕ} {ts : List Token}
    (h : scan unknown fuel cs = some ts) : k ∉ cs := by
  induction fuel generalizing cs ts with
  | zero =>
    cases cs with
    | nil => exact List.not_mem_nil
    | cons c cs => cases h
  | succ fuel ih =>
    cases cs with
    | nil => exact List.not_mem_nil
    | cons c cs =>
      intro hk
      unfold scan at h
      split at h
      · rename_i token punctuation
        have other : k ≠ c := by
          rintro rfl
          rw [foreign.punctuation] at punctuation
          cases punctuation
        obtain ⟨tokens, scanned, -⟩ := Option.map_eq_some_iff.mp h
        exact ih scanned ((List.mem_cons.mp hk).resolve_left other)
      · split_ifs at h with blank letter
        · exact ih h ((List.mem_cons.mp hk).resolve_left fun same => foreign.blank (same.trans blank))
        · have other : k ≠ c := by
            rintro rfl
            rw [foreign.letter] at letter
            cases letter
          simp only [Option.bind_eq_bind, Option.bind_eq_some_iff] at h
          obtain ⟨names, -, others, scanned, -⟩ := h
          exact ih scanned (mem_dropWhile_of_mem foreign.letter ((List.mem_cons.mp hk).resolve_left other))
        · simp only [Option.bind_eq_bind, Option.bind_eq_some_iff] at h
          obtain ⟨⟨value, rest⟩, number, h⟩ := h
          have left := foreign.mem_number number hk
          have suffix : ∀ {c : Char}, c.isAlpha = true → k ≠ c := by
            rintro c letter rfl
            rw [foreign.letter] at letter
            cases letter
          dsimp only at h
          split at h
          · obtain ⟨others, scanned, -⟩ := Option.bind_eq_some_iff.mp h
            exact ih scanned ((List.mem_cons.mp left).resolve_left (suffix rfl))
          · obtain ⟨others, scanned, -⟩ := Option.bind_eq_some_iff.mp h
            exact ih scanned ((List.mem_cons.mp left).resolve_left (suffix rfl))
          · obtain ⟨others, scanned, -⟩ := Option.bind_eq_some_iff.mp h
            exact ih scanned left

end IsForeign

theorem IsForeign.not_mem_of_compile (foreign : IsForeign k) {text letter : String} {c : Collected}
    (h : compile text letter = .ok c) : k ∉ text.toList := by
  unfold compile at h
  cases parsed : Formula.parse? letter text with
  | none =>
    rw [parsed] at h
    dsimp only at h
    split at h
    · cases h
    · cases h
  | some f =>
    unfold Formula.parse? at parsed
    obtain ⟨ts, scanned, -⟩ := Option.bind_eq_some_iff.mp parsed
    exact foreign.not_mem_of_scan scanned

end Scanning

section Writing

variable {m : Member} {t : Term} {l : Literal} {c : Char}

theorem Literal.mem_format (hc : c ∈ l.letter.toList) : c ∈ l.format.toList := by
  unfold format
  split_ifs
  · exact hc
  · rw [String.toList_append, String.toList_append]
    exact List.mem_append_left _ (List.mem_append_left _ hc)

theorem Term.mem_format (hl : t.literal = some l) (hc : c ∈ l.letter.toList) (asFraction : Bool) :
    c ∈ (t.format asFraction).toList := by
  have written := Literal.mem_format hc
  unfold format
  rw [hl]
  dsimp only
  split_ifs <;> rw [String.toList_append] <;> exact List.mem_append_right _ written

theorem Member.mem_text (ht : t ∈ m.terms) (hl : t.literal = some l) (hc : c ∈ l.letter.toList)
    (sign : c ≠ '+') : c ∈ m.text.toList := by
  have written : c ∈ (String.join (m.terms.map (·.format false))).toList := by
    rw [String.toList_join, List.mem_flatMap]
    exact ⟨_, List.mem_map_of_mem ht, Term.mem_format hl hc false⟩
  unfold text format
  split
  · rename_i empty
    rw [empty] at written
    cases written
  · rename_i plus
    rw [plus] at written
    exact absurd (List.mem_singleton.mp written) sign
  · rename_i rest plus
    rw [plus] at written
    rw [String.toList_ofList]
    exact (List.mem_cons.mp written).resolve_left sign
  · rwa [String.toList_ofList]

end Writing

section Splits

variable {settings : Settings} {f : Equation} {F : Factorization} {s : Split} {layout : Layout}

theorem isZero_of_dropLeadingZeros {cs tail : List Binary64} {a b : Binary64}
    (h : dropLeadingZeros cs = a :: b :: tail) : a.isZero = false := by
  induction cs using dropLeadingZeros.induct with
  | case1 c d rest zero ih =>
    rw [dropLeadingZeros, if_pos zero] at h
    exact ih h
  | case2 c d rest zero =>
    rw [dropLeadingZeros, if_neg zero] at h
    cases h
    simpa using zero
  | case3 cs other =>
    rw [dropLeadingZeros] at h
    · exact (other _ _ _ h).elim
    · exact other

theorem Member.letter_cases (m : Member) :
    m.letter = "x" ∨ ∃ l ∈ m.literals, l.letter = m.letter ∧ l.letter.startsWith "y" = false := by
  have named : m.letter = ((m.literals.find? fun l => !l.letter.startsWith "y").map (·.letter)).getD
      defaultLetter := rfl
  cases found : m.literals.find? fun l => !l.letter.startsWith "y" with
  | none =>
    rw [found] at named
    exact .inl named
  | some l =>
    rw [found] at named
    have other := List.find?_some found
    exact .inr ⟨l, List.mem_of_find?_eq_some found, named.symm, by simpa using other⟩

/-- The polynomial of a split has been read in its letter. -/
theorem exists_compile_of_split (h : (factor settings f).Yields layout F) (hs : F.split = some s) :
    ∃ m a b tail collected, f.polynomial = .ok m ∧ a.isZero = false ∧
      compile (Member.ofCoefficients (a :: b :: tail) m.normalize.letter).text m.normalize.letter =
        .ok collected := by
  obtain ⟨m, cs, root, division, hm, -, -, ⟨a, b, others, shape⟩, found, -⟩ := exists_split_steps h hs
  obtain ⟨leading, constant, candidates, -, -, -, searched⟩ := found
  unfold findRoot at searched
  split_ifs at searched
  · cases searched
  · cases compiled : compile (Member.ofCoefficients (dropLeadingZeros cs) m.normalize.letter).text
      m.normalize.letter with
    | error e =>
      rw [compiled] at searched
      cases searched
    | ok collected =>
      rw [shape] at compiled
      exact ⟨m, a, b, others, collected, hm, isZero_of_dropLeadingZeros shape, compiled⟩

/-- The letter of a split has no primes, since its text could be read. -/
theorem exists_letter {m : Member} (names : f.HasUnknownNames) (h : (factor settings f).Yields layout F)
    (hs : F.split = some s) (hm : f.polynomial = .ok m) :
    ∃ l, m.normalize.letter = String.singleton l ∧ l.isAlpha = true ∧ l ≠ 'y' := by
  obtain ⟨m', a, b, tail, collected, hm', nonzero, compiled⟩ := exists_compile_of_split h hs
  obtain rfl := Except.ok.inj (hm.symm.trans hm')
  have named : Literal.isLetterName m.normalize.letter.toList = true := by
    rcases m.normalize.letter_cases with default | ⟨l, hl, same, other⟩
    · rw [default]
      decide
    · rw [← same]
      exact names l (Equation.polynomial_literals hm (m.normalize_literals hl)) other
  have written : ∀ c ∈ m.normalize.letter.toList, c ≠ '+' →
      c ∈ (Member.ofCoefficients (a :: b :: tail) m.normalize.letter).text.toList := by
    intro c hc sign
    refine Member.mem_text (t := Term.ofPower m.normalize.letter a (b :: tail).length) ?_ rfl hc sign
    rw [Member.ofCoefficients_cons, nonzero]
    exact List.mem_append_left _ (List.mem_singleton_self _)
  have noBreak : '\n' ∉ m.normalize.letter.toList := fun h =>
    isForeign_newline.not_mem_of_compile compiled (written _ h (by decide))
  have noPrime : '\'' ∉ m.normalize.letter.toList := fun h =>
    isForeign_prime.not_mem_of_compile compiled (written _ h (by decide))
  obtain ⟨l, primes, chars, isAlpha, marks⟩ := (isLetterName_iff noBreak).mp named
  obtain rfl : primes = [] := by
    refine List.eq_nil_iff_forall_not_mem.mpr fun p hp => noPrime ?_
    rw [chars, ← marks p hp]
    exact List.mem_cons_of_mem l hp
  have letter : m.normalize.letter = String.singleton l := by
    rw [← String.toList_inj, chars, String.toList_singleton]
  refine ⟨l, letter, isAlpha, ?_⟩
  rintro rfl
  rcases m.normalize.letter_cases with default | ⟨l, -, same, other⟩
  · rw [default] at letter
    exact absurd letter (by decide)
  · rw [same, letter] at other
    exact absurd other (by decide +kernel)

theorem exists_divisor (names : f.HasUnknownNames) (h : (factor settings f).Yields layout F) (hs : F.split = some s) :
    ∃ l x, l.isAlpha = true ∧ l ≠ 'y' ∧ Binary64.isFinite x = true ∧
      s.divisor = linearFactor x (String.singleton l) := by
  obtain ⟨m, _, _, _, hm, -, -, -, -, -, tabled, -, divisor⟩ := exists_split_steps h hs
  obtain ⟨l, letter, isAlpha, independent⟩ := exists_letter names h hs hm
  obtain ⟨-, number, -⟩ := Division.of_table tabled
  exact ⟨l, s.table.root, isAlpha, independent, (Binary64.eq_round_of_ofRatChecked number).2, letter ▸ divisor⟩

end Splits

end FunctionStudy
