import FunctionStudy.Proofs.Grammar.Powers
import FunctionStudy.Proofs.Ruffini.Division
import FunctionStudy.Proofs.Work.Layouts

/-! Splitting descending powers. Factoring looks at the polynomial of an equation alone and comes to
the same answer whenever it comes to one. -/

namespace FunctionStudy

variable {l : Char} {settings : Settings} {f g : Equation} {m n : Member} {layout : Layout}

/-- Equations with one polynomial are factored in one way. -/
theorem factor_congr (hf : f.polynomial = .ok m) (hg : g.polynomial = .ok n)
    (same : m.normalize = n.normalize) : factor settings f = factor settings g := by
  have first : Work.ofExcept f.polynomial = pure m := congrArg Work.ofExcept hf
  have second : Work.ofExcept g.polynomial = pure n := congrArg Work.ofExcept hg
  unfold factor
  simp only [first, second, pure_bind, same]

/-- Factoring only writes steps, or fails. -/
theorem factor_isOf {K : ∀ {α : Type}, Work α → Prop} (kind : Work.IsKind K) (settings : Settings)
    (f : Equation) : K (factor settings f) := by
  have unsplit : ∀ text reason, K (do
      Work.record (.unfactorablePolynomial text reason)
      return (⟨text, none⟩ : Factorization)) := fun _ _ =>
    kind.bind (kind.record _) fun _ => kind.pure _
  unfold factor
  refine kind.bind (kind.ofExcept _) fun p => kind.bind (kind.ofExcept _) fun _ => ?_
  refine kind.bind (kind.ofExcept _) fun dense => ?_
  dsimp only
  split
  · split_ifs
    · exact unsplit _ _
    · refine kind.bind (kind.ofExcept _) fun _ => kind.bind (kind.ofExcept _) fun _ => ?_
      refine kind.bind (kind.record _) fun _ => kind.bind (kind.ofExcept _) fun found => ?_
      cases found with
      | none => exact unsplit _ _
      | some root =>
        refine kind.bind (kind.record _) fun _ => kind.bind (kind.ofExcept _) fun _ => ?_
        refine kind.bind (kind.ofExcept _) fun _ => kind.bind (kind.record _) fun _ => ?_
        exact kind.bind (kind.record _) fun _ => kind.pure _
  · exact unsplit _ _

theorem factor_onlyWrites (settings : Settings) (f : Equation) : (factor settings f).OnlyWrites :=
  factor_isOf Work.onlyWrites_isKind settings f

theorem factor_yields_unique {layout' : Layout} {F G : Factorization} (h : (factor settings f).Yields layout F)
    (h' : (factor settings f).Yields layout' G) : F = G :=
  Work.IgnoresLayout.yields_unique (factor_isOf (Work.ignoresLayout_isKind _) settings f)
    (factor_onlyWrites settings f) h h'

namespace Powers

variable (p : Powers)

theorem letter_member (hl : l ≠ 'y') (degree : 0 < p.degree) :
    (p.member l).letter = String.singleton l := by
  have first : Term.literalOf l p.degree =
      some { letter := String.singleton l, exponent := .ofInt (p.degree : ℤ) } := if_neg degree.ne'
  have independent : (String.singleton l).startsWith "y" = false := by
    rw [String.startsWith_string_eq_false_iff]
    simpa [eq_comm] using hl
  rw [Member.letter, member, exponents, List.map_cons, term, Term.ofPower_eq, first]
  simp [independent]

theorem exists_dense : ∃ rest, rest.length = p.degree ∧ p.dense = .ofInt p.leading :: rest := by
  have first : (p.coefficient p.degree).unsignedZero = .ofInt p.leading := p.collected.coefficient_degree
  refine ⟨(List.range p.degree).reverse.map fun k =>
    if k ∈ p.exponents then (p.coefficient k).unsignedZero else .zero, by simp, ?_⟩
  rw [dense, List.range_succ, List.reverse_append, List.reverse_singleton, List.singleton_append,
    List.map_cons, if_pos (by exact List.mem_cons_self), first]

theorem dropLeadingZeros_dense : dropLeadingZeros p.dense = p.dense := by
  obtain ⟨rest, -, shape⟩ := p.exists_dense
  rw [shape]
  cases rest with
  | nil => rfl
  | cons c rest =>
    have kept := p.isZero_coefficient_degree
    rw [coefficient_degree] at kept
    rw [dropLeadingZeros, kept, if_neg Bool.false_ne_true]

end Powers

/-- The root that is found: the first candidate at which the polynomial of the coefficients, as it is
written, is zero. -/
def IsFoundRoot (cs : List Binary64) (letter : String) (root : ℚ) : Prop :=
  ∃ leading constant candidates, cs.head? = some leading ∧ cs.getLast? = some constant ∧
    candidateRoots (.double constant) (.double leading) = .ok candidates ∧
    findRoot (Member.ofCoefficients cs letter).text letter candidates = .ok (some root)

theorem exists_split_steps {F : Factorization} {s : Split} (h : (factor settings f).Yields layout F)
    (hs : F.split = some s) :
    ∃ m cs root division, f.polynomial = .ok m ∧
      settings.checkDegree m.normalize.degree m.normalize.text = .ok () ∧ m.normalize.coefficients = .ok cs ∧
      (∃ a b others, dropLeadingZeros cs = a :: b :: others) ∧
      IsFoundRoot (dropLeadingZeros cs) m.normalize.letter root ∧
      syntheticDivision ((dropLeadingZeros cs).map .double) (.exact root) = .ok division ∧
      division.table (dropLeadingZeros cs) root = .ok s.table ∧
      s.quotient = (Member.ofCoefficients s.table.quotient m.normalize.letter).text ∧
      s.divisor = linearFactor s.table.root m.normalize.letter := by
  have unsplit : ∀ {text reason}, Work.Yields (do
      Work.record (.unfactorablePolynomial text reason)
      return (⟨text, none⟩ : Factorization)) layout F → False := by
    intro text reason h
    rw [h.of_record_bind.of_pure] at hs
    cases hs
  unfold factor at h
  obtain ⟨m, hm, h⟩ := h.of_ofExcept_bind
  obtain ⟨_, checked, h⟩ := h.of_ofExcept_bind
  obtain ⟨cs, hcs, h⟩ := h.of_ofExcept_bind
  dsimp only at h
  split at h
  · rename_i first last tail
    split_ifs at h
    · exact (unsplit h).elim
    · obtain ⟨candidates, tried, h⟩ := h.of_ofExcept_bind
      obtain ⟨_, _, h⟩ := h.of_ofExcept_bind
      obtain ⟨found, searched, h⟩ := h.of_record_bind.of_ofExcept_bind
      cases found with
      | none => exact (unsplit h).elim
      | some root =>
        obtain ⟨division, divided, h⟩ := h.of_record_bind.of_ofExcept_bind
        obtain ⟨table, tabled, h⟩ := h.of_ofExcept_bind
        rw [h.of_record_bind.of_record_bind.of_pure] at hs
        cases hs
        obtain ⟨others, whole⟩ := List.head?_eq_some_iff.mp first
        rw [whole, List.tail_cons] at tail
        exact ⟨m, cs, root, division, hm, checked, hcs, ⟨_, _, _, tail ▸ whole⟩,
          ⟨_, _, candidates, first, last, tried, searched⟩, divided, tabled, rfl, rfl⟩
  · exact (unsplit h).elim

theorem exists_division {p : Powers} (hl : l ≠ 'y') (degree : 0 < p.degree)
    (hf : f.polynomial = .ok m) (hm : m.normalize = p.member l) {F : Factorization} {s : Split}
    (h : (factor settings f).Yields layout F) (hs : F.split = some s) :
    ∃ root division table, syntheticDivision (p.dense.map .double) (.exact root) = .ok division ∧
      division.table p.dense root = .ok table ∧
      s.quotient = (Member.ofCoefficients table.quotient (String.singleton l)).text ∧
      s.divisor = linearFactor table.root (String.singleton l) := by
  obtain ⟨m', cs, root, division, hm', -, dense, -, -, divided, tabled, quotient, divisor⟩ :=
    exists_split_steps h hs
  obtain rfl := Except.ok.inj (hf.symm.trans hm')
  rw [hm] at dense quotient divisor
  rw [p.letter_member hl degree] at quotient divisor
  obtain rfl := Except.ok.inj (p.coefficients_member.symm.trans dense)
  rw [p.dropLeadingZeros_dense] at divided tabled
  exact ⟨root, division, s.table, divided, tabled, quotient, divisor⟩

theorem Binary64.eq_round_of_ofRatChecked {v : ℚ} {x : Binary64} (h : ofRatChecked v = .ok x) :
    x = .round v ∧ x.isFinite = true := by
  unfold ofRatChecked at h
  split_ifs at h with finite
  cases h
  exact ⟨rfl, finite⟩

section Tables

variable {cs : List Binary64} {root : ℚ} {division : Division} {table : RuffiniTable}

theorem exists_sums {c : Binary64} {v : ℚ} (first : Decimal.exact c = .ok v)
    (divided : syntheticDivision ((c :: cs).map .double) (.exact root) = .ok division) :
    ∃ others : List ℚ, others.length = cs.length ∧ division.sums = sumsAfter root v others := by
  have exact : (Number.exact root).toRat = .ok root := rfl
  have leading : (Number.double c).toRat = .ok v := first
  rw [syntheticDivision, exact, List.map_cons, List.mapM_cons, leading] at divided
  cases rest : (cs.map Number.double).mapM Number.toRat with
  | error e =>
    rw [rest] at divided
    cases divided
  | ok others =>
    rw [rest] at divided
    cases divided
    exact ⟨others, by simpa using (forall₂_of_mapM rest).length_eq.symm, rfl⟩

theorem Division.of_table (h : division.table cs root = .ok table) :
    table.coefficients = cs ∧ Binary64.ofRatChecked root = .ok table.root ∧
      division.sums.mapM Binary64.ofRatChecked = .ok table.sums := by
  unfold Division.table at h
  cases number : Binary64.ofRatChecked root with
  | error e =>
    rw [number] at h
    cases h
  | ok x =>
    cases products : division.products.mapM Binary64.ofRatChecked with
    | error e =>
      rw [number, products] at h
      cases h
    | ok ps =>
      cases sums : division.sums.mapM Binary64.ofRatChecked with
      | error e =>
        rw [number, products, sums] at h
        cases h
      | ok ss =>
        rw [number, products, sums] at h
        cases h
        exact ⟨rfl, rfl, rfl⟩

/-- The coefficients of the quotient are those of a table, whose root is a number too. The first one is
the leading coefficient that was divided. -/
theorem exists_quotient {c : Binary64} {v : ℚ} (first : Decimal.exact c = .ok v) (some : cs ≠ [])
    (divided : syntheticDivision ((c :: cs).map .double) (.exact root) = .ok division)
    (tabled : division.table (c :: cs) root = .ok table) :
    table.root.isFinite = true ∧ ∃ others, table.quotient = .round v :: others ∧
      others.length + 1 = cs.length ∧ ∀ c ∈ others, c.isFinite = true := by
  obtain ⟨others, length, sums⟩ := exists_sums first divided
  obtain ⟨w, others, rfl⟩ := List.exists_cons_of_ne_nil (List.ne_nil_of_length_pos
    (length ▸ List.length_pos_iff.mpr some))
  obtain ⟨-, number, rounded⟩ := Division.of_table tabled
  rw [sums, sumsAfter] at rounded
  have each := forall₂_of_mapM rounded
  refine ⟨(Binary64.eq_round_of_ofRatChecked number).2, ?_⟩
  cases table with
  | mk coefficients root products sums =>
  dsimp only at each
  cases each with
  | @cons _ x _ xs leading rest =>
    obtain ⟨rfl, -⟩ := Binary64.eq_round_of_ofRatChecked leading
    have count := rest.length_eq
    have finite : ∀ c ∈ xs, c.isFinite = true := ((List.forall₂_and_left _ _).mp
      (rest.flip.imp fun _ _ h => ⟨(Binary64.eq_round_of_ofRatChecked h).2, h⟩)).1
    rw [length_sumsAfter] at count
    refine ⟨xs.dropLast, List.dropLast_cons_of_ne_nil (List.ne_nil_of_length_pos (by omega)), ?_,
      fun c hc => finite c (List.mem_of_mem_dropLast hc)⟩
    rw [List.length_dropLast, ← length, List.length_cons]
    omega

end Tables

/-- A split that is read as powers, with a linear divisor. -/
structure Split.IsReadAs (l : Char) (q d : Powers) (s : Split) : Prop where
  quotient : (q.reread.member l).IsWrittenAs s.quotient
  divisor : (d.member l).IsWrittenAs s.divisor
  linear : d.degree = 1

theorem exists_isReadAs {p : Powers} (isAlpha : l.isAlpha = true) (hl : l ≠ 'y') (degree : 0 < p.degree)
    (hf : f.polynomial = .ok m) (hm : m.normalize = p.member l) {F : Factorization} {s : Split}
    (h : (factor settings f).Yields layout F) (hs : F.split = some s) :
    ∃ q d : Powers, q.degree + 1 = p.degree ∧ s.IsReadAs l q d := by
  obtain ⟨root, division, table, divided, tabled, quotient, divisor⟩ :=
    exists_division hl degree hf hm h hs
  obtain ⟨rest, length, shape⟩ := p.exists_dense
  rw [shape] at divided tabled
  obtain ⟨finite, others, coefficients, count, numbers⟩ := exists_quotient
    (Decimal.exact_intCast (Binary64.toRat?_ofInt p.leading_le))
    (List.ne_nil_of_length_pos (length ▸ degree)) divided tabled
  rw [← Binary64.ofInt] at coefficients
  obtain ⟨q, below, -, written⟩ := Powers.exists_ofCoefficients numbers p.leading_ne_zero p.leading_le
    (by have := p.degree_le; omega) l
  obtain ⟨d, one, linear, -⟩ := exists_isWrittenAs_linearFactor isAlpha finite
  refine ⟨q, d, by omega, ?_, divisor ▸ linear, one⟩
  rw [quotient, coefficients, written]
  exact q.isWrittenAs_text isAlpha

end FunctionStudy
