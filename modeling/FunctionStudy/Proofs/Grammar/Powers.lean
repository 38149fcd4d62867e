import FunctionStudy.Proofs.Grammar.RoundTrip
import FunctionStudy.Proofs.Member.Powers

/-! Writing and reading descending powers. A member of descending powers is written in the grammar,
and so is a linear factor. The texts are read as members of descending powers again, alone and as
equations that set them to zero. -/

namespace FunctionStudy

open Term (ofPower_eq)

section Sides

def SideSpelling.zero : SideSpelling :=
  ⟨⟨none, .number (.fixed (Numeral.ofNat 0).spelling)⟩, [], nofun⟩

theorem SideSpelling.member_zero : SideSpelling.zero.member = ⟨[.constant .zero]⟩ := by
  decide +kernel

/-- A text that spells the member. -/
def Member.IsWrittenAs (m : Member) (text : String) : Prop :=
  ∃ s : SideSpelling, s.chars = text.toList ∧ s.member = m

namespace Member.IsWrittenAs

variable {m : Member} {text : String}

theorem parse (h : m.IsWrittenAs text) : Member.parse text = .ok m := by
  obtain ⟨s, chars, rfl⟩ := h
  rw [← String.ofList_toList (s := text), ← chars, s.parse_chars]

theorem parse_eqZero (h : m.IsWrittenAs text) :
    Equation.parse (text ++ "=0") = .ok ⟨m, ⟨[.constant .zero]⟩⟩ := by
  obtain ⟨s, chars, rfl⟩ := h
  have zero : SideSpelling.zero.chars = ['0'] := by decide +kernel
  have whole : text ++ "=0" = String.ofList (EquationSpelling.mk s .zero).chars := by
    rw [← String.toList_inj, String.toList_append, String.toList_ofList, ← chars, EquationSpelling.chars,
      zero, String.toList_ofList]
  rw [whole, Equation.parse_chars (EquationSpelling.stripBlanks_chars _), EquationSpelling.equation,
    SideSpelling.member_zero]

theorem ofText (h : m.IsWrittenAs text) : Equation.ofText text = .ok ⟨m, ⟨[.constant .zero]⟩⟩ := by
  have bare : text.toList.contains '=' = false := by
    obtain ⟨s, chars, -⟩ := h
    rw [← chars]
    simpa using s.equals_notMem
  rw [Equation.ofText, bare, if_neg Bool.false_ne_true, h.parse_eqZero]

end Member.IsWrittenAs

end Sides

theorem Binary64.unsignedZero_reread_reread {x : Binary64} (hx : x.isFinite = true) :
    x.reread.reread.unsignedZero = x.reread.unsignedZero := by
  have value := toRat?_of_finite (isFinite_reread hx)
  have again := (toRat?_reread_reread hx).trans value
  rw [unsignedZero_eq value, unsignedZero_eq again]

namespace Powers

variable {l : Char} (p : Powers)

section Reading

/-- The powers that the text is read as. -/
def reread : Powers where
  degree := p.degree
  lower := p.lower
  coefficient k := (p.coefficient k).reread
  leading := p.leading
  ordered := p.ordered
  degree_le := p.degree_le
  finite k := Binary64.isFinite_reread (p.finite k)
  coefficient_degree := by
    rw [coefficient_degree, Binary64.reread_intCast (Binary64.toRat?_ofInt p.leading_le)
      p.leading_ne_zero p.leading_le]
  leading_ne_zero := p.leading_ne_zero
  leading_le := p.leading_le

@[simp] theorem degree_reread : p.reread.degree = p.degree := rfl

@[simp] theorem exponents_reread : p.reread.exponents = p.exponents := rfl

@[simp] theorem coefficient_reread (k : ℕ) : p.reread.coefficient k = (p.coefficient k).reread := rfl

theorem dense_reread_reread : p.reread.reread.dense = p.reread.dense := by
  refine dense_congr p.reread.degree_reread p.reread.exponents_reread fun k => ?_
  rw [coefficient_reread, coefficient_reread, Binary64.unsignedZero_reread_reread (p.finite k)]

theorem reread_member : (p.member l).reread = p.reread.member l := by
  rw [Member.reread, member, List.map_map]
  refine congrArg Member.mk (List.map_congr_left fun k hk => ?_)
  rw [Function.comp_apply, term, ofPower_eq, term, ofPower_eq, coefficient_reread, Term.reread]
  refine congrArg (Term.mk _) ?_
  by_cases zero : k = 0
  · rw [Term.literalOf, if_pos zero]
    rfl
  · have size : |(k : ℤ)| ≤ 2 ^ 53 := by
      have := (p.le_degree hk).trans p.degree_le
      rw [abs_of_nonneg (Int.natCast_nonneg k)]
      omega
    have same := Binary64.reread_intCast (Binary64.toRat?_ofInt size) (by exact_mod_cast zero) size
    rw [Term.literalOf, if_neg zero, Option.map_some, Literal.reread, same]

theorem isWritable_member (hl : l.isAlpha = true) : (p.member l).IsWritable := by
  refine ⟨List.cons_ne_nil _ _, fun t ht => ?_⟩
  obtain ⟨k, hk, rfl⟩ := List.mem_map.mp ht
  rw [term, ofPower_eq]
  refine ⟨p.finite k, fun m hm => ?_⟩
  by_cases zero : k = 0
  · rw [Term.literalOf, if_pos zero] at hm
    cases hm
  · have value := p.isDouble hk
    rw [Term.literalOf, if_neg zero] at hm
    obtain rfl := Option.some.inj hm
    refine ⟨⟨l, [], by simp, hl, by simp⟩, ?_, ?_⟩
    · rw [Binary64.isFinite, value, Option.isSome_some]
    · rw [Binary64.isPositive_iff value]
      exact_mod_cast Nat.pos_of_ne_zero zero

theorem isWrittenAs_text (hl : l.isAlpha = true) :
    (p.reread.member l).IsWrittenAs (p.member l).text := by
  obtain ⟨s, chars, member⟩ := (p.isWritable_member hl).exists_spelling
  exact ⟨s, chars, member.trans p.reread_member⟩

end Reading

end Powers

section Dense

variable {l : Char} {cs : List Binary64}

theorem exists_terms_ofCoefficients (finite : ∀ c ∈ cs, c.isFinite = true) (letter : String) :
    ∃ (ks : List ℕ) (coefficient : ℕ → Binary64), ks.Pairwise (· > ·) ∧ (∀ k ∈ ks, k < cs.length) ∧
      (∀ k, (coefficient k).isFinite = true) ∧
      (Member.ofCoefficients cs letter).terms = ks.map fun k => .ofPower letter (coefficient k) k := by
  induction cs with
  | nil => exact ⟨[], fun _ => .zero, .nil, by simp, fun _ => rfl, rfl⟩
  | cons c cs ih =>
    obtain ⟨ks, coefficient, ordered, below, all, terms⟩ := ih fun d hd => finite d (by simp [hd])
    have others : ∀ k ∈ ks, Function.update coefficient cs.length c k = coefficient k := fun k hk =>
      Function.update_of_ne (below k hk).ne _ _
    refine ⟨(if c.isZero then [] else [cs.length]) ++ ks, Function.update coefficient cs.length c,
      ?_, fun k hk => ?_, fun k => ?_, ?_⟩
    · split_ifs
      · exact ordered
      · exact List.pairwise_cons.mpr ⟨below, ordered⟩
    · rw [List.length_cons]
      rcases List.mem_append.mp hk with hk | hk
      · split_ifs at hk
        · cases hk
        · rw [List.mem_singleton.mp hk]
          exact Nat.lt_succ_self _
      · exact (below k hk).trans (Nat.lt_succ_self _)
    · by_cases same : k = cs.length
      · rw [same, Function.update_self]
        exact finite c List.mem_cons_self
      · rw [Function.update_of_ne same]
        exact all k
    · rw [Member.ofCoefficients_cons, terms, List.map_append,
        List.map_congr_left fun k hk => congrArg (fun d => Term.ofPower letter d k) (others k hk)]
      split_ifs
      · rfl
      · rw [List.map_singleton, Function.update_self]

theorem Powers.exists_ofCoefficients {a : ℤ} (finite : ∀ c ∈ cs, c.isFinite = true) (nonzero : a ≠ 0)
    (small : |a| ≤ 2 ^ 53) (length : cs.length ≤ 2 ^ 53) (l : Char) :
    ∃ p : Powers, p.degree = cs.length ∧ p.leading = a ∧
      Member.ofCoefficients (.ofInt a :: cs) (String.singleton l) = p.member l := by
  obtain ⟨ks, coefficient, ordered, below, all, terms⟩ :=
    exists_terms_ofCoefficients finite (String.singleton l)
  have kept : (Binary64.ofInt a).isZero = false := by
    rw [← Bool.not_eq_true, isZero_ofInt small]
    exact nonzero
  have first : Function.update coefficient cs.length (.ofInt a) cs.length = .ofInt a :=
    Function.update_self ..
  have others : ∀ k ∈ ks, Function.update coefficient cs.length (.ofInt a) k = coefficient k :=
    fun k hk => Function.update_of_ne (below k hk).ne _ _
  refine ⟨⟨cs.length, ks, Function.update coefficient cs.length (.ofInt a), a,
    List.pairwise_cons.mpr ⟨below, ordered⟩, length, fun k => ?_, first, nonzero, small⟩,
    rfl, rfl, ?_⟩
  · by_cases same : k = cs.length
    · rw [same, first, Binary64.isFinite, Binary64.toRat?_ofInt small, Option.isSome_some]
    · rw [Function.update_of_ne same]
      exact all k
  · refine congrArg Member.mk ?_
    have written := Member.ofCoefficients_cons (.ofInt a) cs (String.singleton l)
    rw [kept, if_neg Bool.false_ne_true, terms] at written
    refine written.trans (congrArg₂ List.cons ?_ (List.map_congr_left fun k hk => ?_))
    · exact congrArg (fun c => Term.ofPower _ c _) (first.symm)
    · exact congrArg (fun c => Term.ofPower _ c _) (others k hk).symm

end Dense

section LinearFactor

variable {l : Char} {root : Binary64}

/-- The letter, with a constant if there is one. -/
def Powers.linear (constant : Option Binary64) (finite : ∀ c ∈ constant, c.isFinite = true) :
    Powers where
  degree := 1
  lower := if constant.isSome then [0] else []
  coefficient k := if k = 1 then .ofInt 1 else constant.getD .zero
  leading := 1
  ordered := by split_ifs <;> decide
  degree_le := by norm_num
  finite k := by
    split_ifs
    · decide +kernel
    · cases constant with
      | none => rfl
      | some c => exact finite c rfl
  coefficient_degree := rfl
  leading_ne_zero := one_ne_zero
  leading_le := by norm_num

theorem isWrittenAs_letter (hl : l.isAlpha = true) :
    ((Powers.linear none nofun).member l).IsWrittenAs (String.singleton l) :=
  ⟨⟨⟨none, .power none ⟨l, hl, [], by simp, none⟩⟩, [], nofun⟩, by rw [String.toList_singleton]; rfl, rfl⟩

theorem isWrittenAs_linear (hl : l.isAlpha = true) (n : Numeral) (negative : Bool)
    (finite : (n.decimal negative).toBinary64.isFinite = true) {text : String}
    (written : text.toList = l :: SignedText.sign negative :: n.chars) :
    ((Powers.linear (some (n.decimal negative).toBinary64)
      fun _ h => Option.mem_some.mp h ▸ finite).member l).IsWrittenAs text := by
  have signed : ∀ t ∈ [TermSpelling.mk (some negative) (.number (.fixed n.spelling))],
      t.sign.isSome = true := fun t ht => by rw [List.mem_singleton.mp ht]; rfl
  refine ⟨⟨⟨none, .power none ⟨l, hl, [], by simp, none⟩⟩, _, signed⟩, ?_, ?_⟩
  · have number := n.chars_spelling
    rw [written, ← number]
    simp [SideSpelling.chars, SideSpelling.terms, TermSpelling.chars, TermSpelling.signChars,
      BodySpelling.chars, BodySpelling.numberChars, BodySpelling.literalChars, LiteralSpelling.chars,
      LiteralSpelling.exponentChars, NumberSpelling.chars]
  · have constant : TermSpelling.term ⟨some negative, .number (.fixed n.spelling)⟩ =
        .constant (n.decimal negative).toBinary64 :=
      congrArg (fun d => Term.constant (Decimal.toBinary64 d)) (n.decimal_spelling negative)
    exact congrArg (fun t => Member.mk [_, t]) constant

theorem Powers.coefficient_linear (constant : Option Binary64) (finite) (k : ℕ) :
    (Powers.linear constant finite).coefficient k = if k = 1 then .ofInt 1 else constant.getD .zero := rfl

/-- The divisor of a root is written as the letter less the number that the root is read as. -/
theorem exists_linear_isWrittenAs (hl : l.isAlpha = true) {v : ℚ} (hv : root.toRat? = some v) :
    ∃ constant finite,
      ((Powers.linear constant finite).member l).IsWrittenAs (linearFactor root (String.singleton l)) ∧
      ∃ w, root.reread.toRat? = some w ∧ |w| = settledSize v ∧ (constant.getD .zero).toRat? = some (-w) := by
  have grid := Binary64.onGrid_of_toRat? hv
  have read := toRat?_reread hv
  have size : |if v < 0 then -settledSize v else settledSize v| = settledSize v := by
    split_ifs
    · rw [abs_neg, abs_of_nonneg (settledSize_nonneg grid)]
    · exact abs_of_nonneg (settledSize_nonneg grid)
  rw [linearFactor]
  split_ifs with zero positive
  · obtain rfl : v = 0 := (Binary64.isZero_iff hv).mp zero
    have kept : settledSize 0 = 0 := by rw [settledSize_eq_abs onGrid_zero (.inl rfl), abs_zero]
    refine ⟨none, nofun, isWrittenAs_letter hl, _, read, size, ?_⟩
    rw [if_neg (lt_irrefl _), kept, neg_zero]
    rfl
  · obtain ⟨n, text, value⟩ := Decimal.exists_numeral_writtenSize hv
    have nonneg : ¬ v < 0 := not_lt.mpr ((Binary64.isPositive_iff hv).mp positive).le
    rw [decide_eq_false nonneg] at text
    have number := toRat?_toBinary64_decimal grid value true
    have finite : (n.decimal true).toBinary64.isFinite = true := by
      rw [Binary64.isFinite, number, Option.isSome_some]
    refine ⟨some _, fun _ h => Option.mem_some.mp h ▸ finite, isWrittenAs_linear hl n true finite ?_, _, read,
      size, ?_⟩
    · rw [String.toList_append, String.toList_append, text, String.toList_singleton]
      rfl
    · rw [if_neg nonneg]
      exact number
  · have opposite := Binary64.toRat?_neg hv
    obtain ⟨n, text, value⟩ := Decimal.exists_numeral_writtenSize opposite
    have below : v ≤ 0 := not_lt.mp (mt (Binary64.isPositive_iff hv).mpr positive)
    have negative : v < 0 := lt_of_le_of_ne below fun h => zero ((Binary64.isZero_iff hv).mpr h)
    rw [decide_eq_false (not_lt.mpr (neg_nonneg.mpr below))] at text
    have number := toRat?_toBinary64_decimal (Binary64.onGrid_of_toRat? opposite) value false
    have finite : (n.decimal false).toBinary64.isFinite = true := by
      rw [Binary64.isFinite, number, Option.isSome_some]
    refine ⟨some _, fun _ h => Option.mem_some.mp h ▸ finite, isWrittenAs_linear hl n false finite ?_, _, read,
      size, ?_⟩
    · rw [String.toList_append, String.toList_append, text, String.toList_singleton]
      rfl
    · rw [if_pos negative, neg_neg, ← settledSize_neg]
      exact number

theorem exists_isWrittenAs_linearFactor (hl : l.isAlpha = true) (finite : root.isFinite = true) :
    ∃ p : Powers, p.degree = 1 ∧ (p.member l).IsWrittenAs (linearFactor root (String.singleton l)) ∧
      ∀ k, ∃ v, (p.coefficient k).toRat? = some v ∧ (v = 1 ∨ |v| = settledSize root.toRat) := by
  obtain ⟨constant, known, written, w, -, size, value⟩ :=
    exists_linear_isWrittenAs hl (Binary64.toRat?_of_finite finite)
  refine ⟨_, rfl, written, fun k => ?_⟩
  rw [Powers.coefficient_linear]
  split_ifs
  · exact ⟨1, Binary64.toRat?_ofInt (by norm_num), .inl rfl⟩
  · exact ⟨_, value, .inr (by rw [abs_neg, size])⟩

end LinearFactor
end FunctionStudy
