import FunctionStudy.Proofs.Member.Ordinary
import FunctionStudy.Study.Shape

/-! The value of a function, through the text of its right member. There a letter to the power 0 is
written as the letter, and counts as the point instead of 1. -/

namespace FunctionStudy

variable {l : Char} {t : Term} {p : Member} {f : Equation} {x : Number} {v : ℚ}

/-- The coefficient times the power, where a term without literal part has the power 0. -/
def Term.valueAt (v : ℚ) (t : Term) : ℚ := t.intCoefficient * v ^ t.natExponent

/-- A letter to the power 0. -/
def Term.isUnit (t : Term) : Bool := t.literal.isSome && t.natExponent = 0

namespace Member

/-- The sum of the terms as they stand. -/
def valueAt (v : ℚ) (p : Member) : ℚ := (p.terms.map (·.valueAt v)).sum

/-- How often letters to the power 0 are counted. -/
def unitCount (p : Member) : ℤ := ((p.terms.filter (·.isUnit)).map Term.intCoefficient).sum

end Member

section Texts

theorem Term.IsIntegerIn.isPowerOf (h : t.IsIntegerIn l) : t.IsPowerOf l := h.literal

theorem Term.IsIntegerIn.isFinite (h : t.IsIntegerIn l) : t.coefficient.isFinite = true := by
  rw [Binary64.isFinite, h.toRat?_coefficient, Option.isSome_some]

theorem Term.IsIntegerIn.writtenValue_eq (h : t.IsIntegerIn l) (v : ℚ) :
    t.writtenValue v = t.valueAt v + if t.isUnit then (t.intCoefficient : ℚ) * (v - 1) else 0 := by
  rw [writtenValue, Binary64.toRat_eq h.toRat?_coefficient, writtenValue_intCast, writtenExponent, valueAt]
  by_cases unit : t.literal.isSome = true ∧ t.natExponent = 0
  · have isUnit : t.isUnit = true := by simp [Term.isUnit, unit]
    rw [if_pos unit, if_pos isUnit, unit.2]
    ring
  · have isUnit : ¬ t.isUnit = true := by simpa [Term.isUnit] using unit
    rw [if_neg unit, if_neg isUnit, add_zero]

/-- The text counts a letter to the power 0 as the point, not as 1. -/
theorem Member.writtenValue_eq (terms : ∀ t ∈ p.terms, t.IsIntegerIn l) (v : ℚ) :
    p.writtenValue v = p.valueAt v + p.unitCount * (v - 1) := by
  obtain ⟨ts⟩ := p
  unfold writtenValue valueAt unitCount
  dsimp only at terms ⊢
  induction ts with
  | nil => simp
  | cons t ts ih =>
    have rest := ih fun u hu => terms u (List.mem_cons_of_mem t hu)
    rw [List.map_cons, List.sum_cons, List.map_cons, List.sum_cons, rest,
      (terms t List.mem_cons_self).writtenValue_eq]
    cases unit : t.isUnit with
    | true =>
      rw [List.filter_cons_of_pos unit, List.map_cons, List.sum_cons, if_pos rfl]
      push_cast
      ring
    | false =>
      rw [List.filter_cons_of_neg (by simp [unit]), if_neg Bool.false_ne_true]
      ring

end Texts

namespace Equation

theorem evaluate_eq_round (hl : IsReadable l) (explicit : f.isExplicit = true)
    (terms : ∀ t ∈ f.right.terms, t.IsIntegerIn l) (hx : x.toRat = .ok v) :
    f.evaluate x = .ok (.round (f.right.writtenValue v)) := by
  have isIn : f.right.IsIn l := fun t ht => (terms t ht).isPowerOf
  obtain ⟨m, hm, letter, isIn⟩ := isIn.exists_letter hl
  obtain ⟨c, compiled, value⟩ := isIn.exists_compile hm fun t ht => (terms t ht).isFinite
  have polynomial : f.polynomial = .ok f.right := if_pos explicit
  simp only [evaluate, polynomial, FunctionStudy.evaluate, letter, compiled, hx, bind, Except.bind, value,
    Formula.Value.toBinary64]

/-- An explicit function of integer terms in one letter is evaluated for every list of terms and at every
rational. The value is the double nearest to the sum of the terms, as long as the letters to the power 0 cancel
or count for 1 at the point; else it is off by the coefficients that these letters carry. -/
theorem evaluate_explicit (hl : IsReadable l) (explicit : f.isExplicit = true)
    (terms : ∀ t ∈ f.right.terms, t.IsIntegerIn l) (hx : x.toRat = .ok v) :
    f.evaluate x = .ok (.round (f.right.valueAt v + f.right.unitCount * (v - 1))) ∧
    (f.right.unitCount = 0 ∨ v = 1 → f.evaluate x = .ok (.round (f.right.valueAt v))) := by
  have value := evaluate_eq_round hl explicit terms hx
  rw [Member.writtenValue_eq terms] at value
  refine ⟨value, fun unwritten => ?_⟩
  have none : (f.right.unitCount : ℚ) * (v - 1) = 0 := by
    rcases unwritten with zero | one
    · rw [zero, Int.cast_zero, zero_mul]
    · rw [one, sub_self, mul_zero]
  rw [value, none, add_zero]

theorem isIntegerIn_written {a : ℤ} {k : ℕ} (ha : |a| ≤ 2 ^ 53) (hk : k ≤ 2 ^ 53) :
    (Term.mk (.ofInt a) (some { letter := .singleton l, exponent := .ofInt k })).IsIntegerIn l where
  coefficient := ⟨a, Binary64.toRat?_ofInt ha⟩
  literal m hm := by
    obtain rfl := Option.some.inj hm
    exact ⟨rfl, rfl, k, isDouble_of_le hk⟩

/-- Like terms with a constant between them. -/
theorem evaluate_explicit_parabola : ∃ f, parse "y=2x^2-x+3-x^2" = .ok f ∧
    f.evaluate (.exact (1 / 2)) = .ok (.round (11 / 4)) := by
  let power (a : ℤ) (k : ℕ) : Term := ⟨.ofInt a, some { letter := .singleton 'x', exponent := .ofInt k }⟩
  let f : Equation := ⟨⟨[⟨.ofInt 1, some (.ofLetter "y")⟩]⟩,
    ⟨[power 2 2, power (-1) 1, .constant (.ofInt 3), power (-1) 2]⟩⟩
  have read : parse "y=2x^2-x+3-x^2" = .ok f := by decide +kernel
  have powers : ∀ (a : ℤ) (k : ℕ), |a| ≤ 2 → k ≤ 2 → (power a k).IsIntegerIn 'x' :=
    fun a k ha hk => isIntegerIn_written (ha.trans (by norm_num)) (hk.trans (by norm_num))
  have constant : (Term.constant (.ofInt 3)).IsIntegerIn 'x' :=
    ⟨⟨3, Binary64.toRat?_ofInt (by norm_num)⟩, Term.isPowerOf_constant _ _⟩
  have terms : ∀ t ∈ f.right.terms, t.IsIntegerIn 'x' := by
    simp only [f, List.forall_mem_cons, List.not_mem_nil, false_imp_iff, implies_true, and_true]
    exact ⟨powers 2 2 (by norm_num) le_rfl, powers (-1) 1 (by norm_num) (by norm_num), constant,
      powers (-1) 2 (by norm_num) le_rfl⟩
  have value := (evaluate_explicit (x := .exact (1 / 2)) isReadable_x (by decide +kernel) terms rfl).2
    (.inl (by decide +kernel))
  have sum : f.right.valueAt (1 / 2) = 11 / 4 := by decide +kernel
  exact ⟨f, read, by rw [value, sum]⟩

/-- `3x^0` is written `3x`, which is 6 at 2. -/
theorem evaluate_unit : ∃ f, parse "y=3x^0" = .ok f ∧ (∀ t ∈ f.right.terms, t.IsIntegerIn 'x') ∧
    f.right.valueAt 2 = 3 ∧ f.evaluate (.exact 2) = .ok (.ofInt 6) := by
  let f : Equation := ⟨⟨[⟨.ofInt 1, some (.ofLetter "y")⟩]⟩,
    ⟨[⟨.ofInt 3, some { letter := .singleton 'x', exponent := .ofInt 0 }⟩]⟩⟩
  have read : parse "y=3x^0" = .ok f := by decide +kernel
  have terms : ∀ t ∈ f.right.terms, t.IsIntegerIn 'x' :=
    List.forall_mem_singleton.mpr (isIntegerIn_written (k := 0) (by norm_num) (by norm_num))
  have value := evaluate_eq_round (x := .exact 2) isReadable_x (by decide +kernel) terms rfl
  have written : f.right.writtenValue 2 = 6 := by
    rw [Member.writtenValue_eq terms]
    decide +kernel
  exact ⟨f, read, terms, by decide +kernel, by rw [value, written]; rfl⟩

end Equation

end FunctionStudy
