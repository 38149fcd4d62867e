import FunctionStudy.Member
import FunctionStudy.Number
import FunctionStudy.Proofs.Decimal.PlainText
import FunctionStudy.Proofs.Formula.Reading
import FunctionStudy.Ruffini.SyntheticDivision

/-! Printing dense coefficients. The member of dense coefficients is printed as a sum of written
terms whose values are the exact values of the coefficients times powers of the letter. -/

namespace FunctionStudy

/-- A double that stands for the natural number. -/
def IsDouble (k : ℕ) : Prop := (Binary64.ofInt k).toRat? = some (k : ℚ)

theorem isDouble_of_le {k : ℕ} (h : k ≤ 2 ^ 53) : IsDouble k := by
  have bound : |(k : ℤ)| ≤ 2 ^ 53 := by rw [abs_of_nonneg (Int.natCast_nonneg k)]; exact_mod_cast h
  exact_mod_cast Binary64.toRat?_ofInt bound

theorem isDouble_of_toRat? {x : Binary64} {k : ℕ} (h : x.toRat? = some (k : ℚ)) : IsDouble k := by
  rw [IsDouble, Binary64.ofInt, Int.cast_natCast]
  exact Binary64.toRat?_round (Binary64.onGrid_of_toRat? h)

theorem TermText.chars_ne_nil (t : TermText) : t.chars ≠ [] := by
  cases t with
  | constant n =>
    obtain ⟨c, rest, hc, -⟩ := n.exists_chars_cons
    simp [chars, hc]
  | power n l e => simp [chars]

namespace Term

/-- The term of a coefficient at an exponent of a letter; exponent 0 is the constant. -/
def ofPower (letter : String) (c : Binary64) (k : ℕ) : Term :=
  if k = 0 then .constant c else ⟨c, some { letter, exponent := .ofInt k }⟩

theorem toRat?_exponent_ofPower (letter : String) (c : Binary64) {k : ℕ} (hk : IsDouble k) :
    (ofPower letter c k).exponent.toRat? = some (k : ℚ) := by
  unfold ofPower exponent
  split_ifs with zero
  · rw [zero, Nat.cast_zero, constant, Option.map_none, Option.getD_none, Binary64.toRat?_zero]
  · rw [Option.map_some, Option.getD_some, hk]

/-- How the term of a coefficient is written; a coefficient of size 1 is not written before a
letter. -/
def textOf (n : Numeral) (isUnit : Bool) (l : Char) (k : ℕ) : TermText :=
  if k = 0 then .constant n else .power (if isUnit then none else some n) l k

theorem textOf_hasLetter (n : Numeral) (isUnit : Bool) (l : Char) (k : ℕ) :
    (textOf n isUnit l k).HasLetter l := by
  unfold textOf
  split_ifs <;> simp [TermText.HasLetter]

section Format

variable {x : Binary64} {v : ℚ} {n : Numeral} {negative : Bool}

theorem toList_signed {number : String} (h : number.toList = n.signedChars negative) :
    (if number.startsWith "-" then number else "+" ++ number).toList =
      SignedText.sign negative :: n.chars := by
  have minus : number.startsWith "-" = true ↔ negative = true := by
    obtain ⟨c, rest, hc, digit⟩ := n.exists_chars_cons
    have other : '-' ≠ c := by rintro rfl; exact absurd digit (by decide)
    cases negative <;> simp [String.startsWith_string_iff, h, Numeral.signedChars, hc, other]
  cases negative with
  | true => rw [if_pos (minus.mpr rfl), h]; rfl
  | false =>
    rw [if_neg (by simp [minus]), String.toList_append, h]
    rfl

theorem toList_format_literal {l : Char} {k : ℕ} (hk : IsDouble k) (positive : k ≠ 0) :
    ({ letter := String.singleton l, exponent := .ofInt k } : Literal).format.toList =
      l :: TermText.exponentChars k := by
  have nonzero : (Binary64.ofInt k).isZero = false := by
    rw [← Bool.not_eq_true, Binary64.isZero_iff hk]
    exact_mod_cast positive
  have one : (Binary64.ofInt k).same (.ofInt 1) = true ↔ k = 1 := by
    rw [Binary64.same_iff hk (Binary64.toRat?_ofInt (n := 1) (by norm_num))]
    exact_mod_cast Iff.rfl
  have whole : (Binary64.ofInt k).toRat? = some (((k : ℕ) : ℤ) : ℚ) := by exact_mod_cast hk
  unfold Literal.format TermText.exponentChars
  by_cases h : k = 1
  · rw [one.mpr h, Bool.or_true, if_pos rfl, if_pos h, String.toList_singleton]
  · have other : (Binary64.ofInt k).same (.ofInt 1) = false := by simpa using mt one.mp h
    have digits := Decimal.toList_plainText_intCast whole
    simp [nonzero, other, h, digits, Numeral.signedChars]

theorem toList_format {l : Char} {k : ℕ} (hk : IsDouble k) (hx : x.toRat? = some v)
    (hn : (Decimal.plainText x).toList = n.signedChars (decide (v < 0))) :
    ((ofPower (String.singleton l) x k).format false).toList =
      SignedText.chars ⟨decide (v < 0), textOf n (decide (|v| = 1)) l k⟩ := by
  have number := toList_signed hn
  by_cases constant : k = 0
  · simp only [ofPower, textOf, constant, if_true, Term.constant, format, Bool.false_eq_true,
      if_false]
    exact number
  have plus : x.same (.ofInt 1) = true ↔ v = 1 := by
    rw [Binary64.same_iff hx (Binary64.toRat?_ofInt (n := 1) (by norm_num)), Int.cast_one]
  have minus : x.same (.ofInt (-1)) = true ↔ v = -1 := by
    rw [Binary64.same_iff hx (Binary64.toRat?_ofInt (n := -1) (by norm_num))]
    norm_num
  have literal := toList_format_literal (l := l) hk constant
  simp only [ofPower, textOf, if_neg constant, format, Bool.false_eq_true, if_false, plus, minus]
  by_cases one : v = 1
  · subst one
    simpa [SignedText.chars, SignedText.sign, TermText.chars, TermText.numberChars] using literal
  by_cases opposite : v = -1
  · subst opposite
    rw [if_neg one, if_pos rfl]
    simpa [SignedText.chars, SignedText.sign, TermText.chars, TermText.numberChars] using literal
  have size : ¬ |v| = 1 := fun h => (eq_or_eq_neg_of_abs_eq h).elim one opposite
  rw [if_neg one, if_neg opposite, String.toList_append, number, literal]
  simp [SignedText.chars, TermText.chars, TermText.numberChars, size]

end Format

end Term

namespace Member

def termAt (letter : String) (degree : ℕ) (e : Binary64 × ℕ) : Option Term :=
  if e.1.isZero then none
  else if e.2 < degree then
    some ⟨e.1, some { letter, exponent := .ofInt ((degree - e.2 : ℕ) : ℤ) }⟩
  else some (.constant e.1)

theorem terms_ofCoefficients (cs : List Binary64) (letter : String) :
    (ofCoefficients cs letter).terms = cs.zipIdx.filterMap (termAt letter (cs.length - 1)) :=
  rfl

/-- The first coefficient makes a term of its own exponent; the others are as they would be
without it. -/
theorem ofCoefficients_cons (c : Binary64) (rest : List Binary64) (letter : String) :
    (ofCoefficients (c :: rest) letter).terms =
      (if c.isZero then [] else [Term.ofPower letter c rest.length]) ++
        (ofCoefficients rest letter).terms := by
  have others : (rest.zipIdx 1).filterMap (termAt letter rest.length) =
      (ofCoefficients rest letter).terms := by
    rw [terms_ofCoefficients, List.zipIdx_succ, List.filterMap_map]
    apply List.filterMap_congr
    rintro ⟨d, i⟩ hd
    have bound := (List.mk_mem_zipIdx_iff_getElem?.mp hd)
    have inside : i < rest.length := (List.getElem?_eq_some_iff.mp bound).1
    have last : i + 1 < rest.length ↔ i < rest.length - 1 := by omega
    have exponent : rest.length - (i + 1) = rest.length - 1 - i := by omega
    simp only [Function.comp_apply, termAt, last, exponent]
  rw [← others, terms_ofCoefficients]
  simp only [List.zipIdx_cons, List.filterMap_cons, Nat.zero_add, List.length_cons,
    Nat.add_sub_cancel, termAt, Nat.sub_zero]
  by_cases zero : c.isZero = true
  · simp [zero]
  · rcases Nat.eq_zero_or_pos rest.length with none | some
    · simp [zero, none, Term.ofPower]
    · simp [zero, some, Term.ofPower, some.ne']

theorem terms_ofCoefficients_range (f : ℕ → Binary64) (letter : String) (n : ℕ) :
    (ofCoefficients ((List.range n).reverse.map f) letter).terms =
      ((List.range n).reverse.filter fun k => !(f k).isZero).map fun k => Term.ofPower letter (f k) k := by
  induction n with
  | zero => rfl
  | succ n ih =>
    rw [List.range_succ, List.reverse_append, List.reverse_singleton, List.singleton_append, List.map_cons,
      ofCoefficients_cons, ih, List.filter_cons, List.length_map, List.length_reverse, List.length_range]
    cases (f n).isZero <;> rfl

theorem toList_text {m : Member} {ts : List SignedText}
    (h : m.terms.map (fun t => (t.format false).toList) = ts.map SignedText.chars) :
    m.text.toList = sumChars ts := by
  have joined : (String.join (m.terms.map (·.format false))).toList =
      ts.flatMap SignedText.chars := by
    rw [String.toList_join, List.flatMap_map, List.flatMap_def, h, ← List.flatMap_def]
  rw [text, format, joined]
  cases ts with
  | nil => rfl
  | cons s rest =>
    obtain ⟨c, cs, hc⟩ := List.exists_cons_of_ne_nil s.body.chars_ne_nil
    cases hs : s.negative <;>
      simp [SignedText.chars, SignedText.sign, sumChars, SignedText.firstChars, hs, hc]

end Member

/-- How a member of dense coefficients is written, one term for each nonzero coefficient. -/
inductive Prints (l : Char) : List Binary64 → List SignedText → Prop
  | nil : Prints l [] []
  | zero {c : Binary64} {rest : List Binary64} {ts : List SignedText} :
      c.isZero = true → Prints l rest ts → Prints l (c :: rest) ts
  | term {c : Binary64} {rest : List Binary64} {ts : List SignedText} {v : ℚ} {n : Numeral} :
      c.toRat? = some v → v ≠ 0 → (Decimal.plainText c).toList = n.signedChars (decide (v < 0)) →
      IsDouble rest.length → Prints l rest ts →
      Prints l (c :: rest)
        (⟨decide (v < 0), Term.textOf n (decide (|v| = 1)) l rest.length⟩ :: ts)

def HasDoubleExponents : List Binary64 → Prop
  | [] => True
  | c :: rest => (c.isZero = false → IsDouble rest.length) ∧ HasDoubleExponents rest

theorem hasDoubleExponents_range {f : ℕ → Binary64} {n : ℕ} :
    HasDoubleExponents ((List.range n).reverse.map f) ↔ ∀ k < n, (f k).isZero = false → IsDouble k := by
  induction n with
  | zero => simp [HasDoubleExponents]
  | succ n ih =>
    rw [List.range_succ, List.reverse_append, List.reverse_singleton, List.singleton_append, List.map_cons,
      HasDoubleExponents, ih, List.length_map, List.length_reverse, List.length_range, Nat.forall_lt_succ_right,
      and_comm]

theorem hasDoubleExponents_of_length_le {cs : List Binary64} (h : cs.length ≤ 2 ^ 53 + 1) :
    HasDoubleExponents cs := by
  induction cs with
  | nil => trivial
  | cons c rest ih =>
    rw [List.length_cons] at h
    exact ⟨fun _ => isDouble_of_le (by omega), ih (by omega)⟩

namespace Prints

variable {l : Char} {cs : List Binary64} {ts : List SignedText}

theorem exists_of_finite (finite : ∀ c ∈ cs, c.isFinite = true) (exponents : HasDoubleExponents cs) :
    ∃ ts, Prints l cs ts := by
  induction cs with
  | nil => exact ⟨[], .nil⟩
  | cons c rest ih =>
    obtain ⟨ts, h⟩ := ih (fun d hd => finite d (by simp [hd])) exponents.2
    by_cases hz : c.isZero = true
    · exact ⟨ts, .zero hz h⟩
    · obtain ⟨v, hv⟩ := Option.isSome_iff_exists.mp (finite c (by simp))
      obtain ⟨n, hn⟩ := Decimal.exists_numeral hv
      have nonzero : v ≠ 0 := fun h => hz ((Binary64.isZero_iff hv).mpr h)
      exact ⟨_, .term hv nonzero hn (exponents.1 (by simpa using hz)) h⟩

theorem hasLetter (h : Prints l cs ts) : ∀ s ∈ ts, s.body.HasLetter l := by
  induction h with
  | nil => simp
  | zero _ _ ih => exact ih
  | term _ _ _ _ _ ih =>
    intro s hs
    rcases List.mem_cons.mp hs with rfl | hs
    · exact Term.textOf_hasLetter _ _ _ _
    · exact ih s hs

theorem format_terms (h : Prints l cs ts) :
    (Member.ofCoefficients cs (String.singleton l)).terms.map (fun t => (t.format false).toList) =
      ts.map SignedText.chars := by
  induction h with
  | nil => rfl
  | zero hz _ ih => rw [Member.ofCoefficients_cons, if_pos hz, List.nil_append, ih]
  | @term c rest ts v n hv nonzero hn hk _ ih =>
    have hz : ¬ c.isZero = true := by rwa [Binary64.isZero_iff hv]
    rw [Member.ofCoefficients_cons, if_neg hz, List.singleton_append, List.map_cons, List.map_cons,
      ih, Term.toList_format hk hv hn]

theorem toList_text (h : Prints l cs ts) :
    (Member.ofCoefficients cs (String.singleton l)).text.toList = sumChars ts :=
  Member.toList_text h.format_terms

theorem numeral_of_unit {c : Binary64} {v : ℚ} {n : Numeral} (hv : c.toRat? = some v)
    (hn : (Decimal.plainText c).toList = n.signedChars (decide (v < 0))) (unit : |v| = 1) :
    (n.decimal false).toRat = 1 := by
  have written := Decimal.exact_eq hn
  rw [Numeral.toRat_decimal] at written
  rcases eq_or_eq_neg_of_abs_eq unit with rfl | rfl
  · rw [Decimal.exact_intCast (z := 1) (by simpa using hv)] at written
    simpa [show ¬ (1 : ℚ) < 0 from not_lt.mpr zero_le_one] using (Except.ok.inj written).symm
  · rw [Decimal.exact_intCast (z := -1) (by simpa using hv)] at written
    simpa using (Except.ok.inj written).symm

theorem value_textOf {c : Binary64} {v : ℚ} {n : Numeral} {k : ℕ} (hv : c.toRat? = some v)
    (hn : (Decimal.plainText c).toList = n.signedChars (decide (v < 0))) :
    ∃ w, Decimal.exact c = .ok w ∧ ∀ x,
      SignedText.value x ⟨decide (v < 0), Term.textOf n (decide (|v| = 1)) l k⟩ = w * x ^ k := by
  have body : ∀ x, (Term.textOf n (decide (|v| = 1)) l k).value x =
      (n.decimal false).toRat * x ^ k := by
    intro x
    unfold Term.textOf
    by_cases constant : k = 0
    · simp [constant, TermText.value]
    by_cases unit : |v| = 1
    · simp [constant, unit, TermText.value, TermText.numberValue, numeral_of_unit hv hn unit]
    · simp [constant, unit, TermText.value, TermText.numberValue]
  refine ⟨_, Decimal.exact_eq hn, fun x => ?_⟩
  rw [Numeral.toRat_decimal, SignedText.value, body]
  split_ifs <;> ring

theorem exact_value (h : Prints l cs ts) :
    ∃ ws, cs.mapM Decimal.exact = .ok ws ∧ ws.length = cs.length ∧
      ∀ x, sumValue ts x = denseValue ws x := by
  induction h with
  | nil => exact ⟨[], rfl, rfl, fun x => rfl⟩
  | @zero c rest ts hz _ ih =>
    obtain ⟨ws, hws, length, value⟩ := ih
    have hc : Decimal.exact c = .ok 0 := by
      exact_mod_cast Decimal.exact_intCast (z := 0) (by simpa [Binary64.isZero] using hz)
    refine ⟨0 :: ws, by rw [List.mapM_cons, hc, hws]; rfl, by simp [length], fun x => ?_⟩
    rw [denseValue, value, zero_mul, zero_add]
  | @term c rest ts v n hv _ hn _ _ ih =>
    obtain ⟨ws, hws, length, value⟩ := ih
    obtain ⟨w, hw, first⟩ := value_textOf (l := l) (k := rest.length) hv hn
    refine ⟨w :: ws, by rw [List.mapM_cons, hw, hws]; rfl, by simp [length], fun x => ?_⟩
    rw [denseValue, length, ← value, ← first]
    simp [sumValue]

/-- The value of the printed member at every rational, if no letter is taken for a part of a
number. -/
theorem compile_text (h : Prints l cs ts) (hl : l.isAlpha = true) (sep : AreSeparated ts) :
    ∃ ws c, cs.mapM Decimal.exact = .ok ws ∧ ws.length = cs.length ∧
      compile (Member.ofCoefficients cs (String.singleton l)).text (String.singleton l) = .ok c ∧
      ∀ x, c.valueAt x = .rational (denseValue ws x) := by
  obtain ⟨ws, hws, length, value⟩ := h.exact_value
  obtain ⟨c, hc, hv⟩ := Formula.compile_sumChars hl h.hasLetter sep
  rw [← h.toList_text, String.ofList_toList] at hc
  exact ⟨ws, c, hws, length, hc, fun x => by rw [hv, value]⟩

end Prints
end FunctionStudy
