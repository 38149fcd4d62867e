import FunctionStudy.Proofs.Calculus.Derivative
import FunctionStudy.Proofs.Member.Integer

/-! Slopes of lines. The rate of change of a line is the sum of the coefficients of its letter, and
the derivative of the line is a member of that value. -/

namespace FunctionStudy

namespace Term

variable {t : Term}

theorem isFinite_exponent (natural : t.exponent.toRat? = some (t.natExponent : ℚ)) :
    t.exponent.isFinite = true := by
  rw [Binary64.isFinite, natural, Option.isSome_some]

theorem isConstant_iff_natExponent (natural : t.exponent.toRat? = some (t.natExponent : ℚ)) :
    t.isConstant = true ↔ t.natExponent = 0 := by
  rw [isConstant_iff (isFinite_exponent natural), Binary64.toRat_eq natural, Nat.cast_eq_zero]

theorem hasExponent_one (natural : t.exponent.toRat? = some (t.natExponent : ℚ)) :
    (t.literal.map (·.exponent.same (.ofInt 1))).getD false = decide (t.natExponent = 1) := by
  obtain ⟨c, literal⟩ := t
  cases literal with
  | none =>
    rw [natExponent_eq_zero_of_none rfl]
    rfl
  | some l =>
    refine Bool.eq_iff_iff.mpr ((Binary64.same_iff natural Binary64.toRat?_one).trans ?_)
    rw [decide_eq_true_eq, Nat.cast_eq_one]

end Term

/-- What is left of an exponent up to 1 is what the term changes by between 0 and 1. -/
theorem Summand.leftValue_of_unit {t : Summand ℚ} (finite : t.exponent.isFinite = true)
    (unit : t.exponent.toRat = 0 ∨ t.exponent.toRat = 1) (x : ℝ) : t.leftValue x + t.realValue 0 = t.realValue 1 := by
  rw [realValue_one, realValue_zero, leftValue, power]
  rcases unit with zero | one
  · rw [if_pos zero, zero, Rat.cast_zero, mul_zero, zero_mul, zero_add]
  · rw [Binary64.leftPower_eq_zero finite (one.symm ▸ zero_le_one) one.le, if_neg (one.symm ▸ one_ne_zero), one]
    simp

namespace Member

variable {p : Member} {t : Term}

def linearTerms (p : Member) : List Term := p.terms.filter fun t => !t.isConstant

/-- Natural exponents, of which 1 is the largest. -/
structure IsLinear (p : Member) : Prop where
  natural : p.HasNaturalExponents
  degree : p.writtenDegree = 1

theorem IsLinear.natExponent_le (h : p.IsLinear) (ht : t ∈ p.terms) : t.natExponent ≤ 1 :=
  h.degree ▸ natExponent_le_writtenDegree ht

theorem IsLinear.isConstant_eq (h : p.IsLinear) (ht : t ∈ p.terms) :
    t.isConstant = !decide (t.natExponent = 1) := by
  have small := h.natExponent_le ht
  rw [Bool.eq_iff_iff, Term.isConstant_iff_natExponent (h.natural t ht)]
  simp
  omega

theorem IsLinear.linearTerms_eq (h : p.IsLinear) :
    p.linearTerms = p.terms.filter fun t => decide (t.natExponent = 1) := by
  refine List.filter_congr fun t ht => ?_
  rw [h.isConstant_eq ht, Bool.not_not]

theorem IsLinear.exists_cons (h : p.IsLinear) : ∃ first rest, p.linearTerms = first :: rest := by
  refine List.exists_cons_of_ne_nil fun none => ?_
  have zero : p.writtenDegree ≤ 0 := by
    refine foldl_max_le le_rfl fun j hj => ?_
    obtain ⟨t, ht, rfl⟩ := List.mem_map.mp hj
    have constant := List.filter_eq_nil_iff.mp none t ht
    rw [Bool.not_eq_true, Bool.not_eq_false', Term.isConstant_iff_natExponent (h.natural t ht)] at constant
    exact constant.le
  rw [h.degree] at zero
  cases zero

theorem IsLinear.getByExponent? (h : p.IsLinear) : p.getByExponent? (.ofInt 1) = p.linearTerms.head? := by
  rw [h.linearTerms_eq, Member.getByExponent?, ← List.head?_filter]
  exact congrArg List.head? (List.filter_congr fun t ht => Term.hasExponent_one (h.natural t ht))

theorem coefficientTotal_split (p : Member) : coefficientTotal p.terms =
    coefficientTotal (p.terms.filter (·.isConstant)) + coefficientTotal p.linearTerms := by
  have all := ((List.filter_append_perm (·.isConstant) p.terms).map (·.coefficient.toRat)).sum_eq
  rw [List.map_append, List.sum_append] at all
  exact all.symm

theorem IsLinear.realValue_sub (h : p.IsLinear) :
    p.realValue 1 - p.realValue 0 = coefficientTotal p.linearTerms := by
  rw [realValue_one, realValue_zero fun t ht => Term.isFinite_exponent (h.natural t ht), coefficientTotal_split]
  push_cast
  ring

theorem IsLinear.realValue_derivative (h : p.IsLinear) (finite : ∀ t ∈ p.terms, t.coefficient.isFinite = true)
    (x : ℝ) : p.derivative.realValue x = p.realValue 1 - p.realValue 0 := by
  have exponents : ∀ t ∈ p.terms, t.exponent.isFinite = true := fun t ht => Term.isFinite_exponent (h.natural t ht)
  have unit : ∀ t ∈ p.terms, t.exponent.toRat = 0 ∨ t.exponent.toRat = 1 := by
    intro t ht
    rw [Binary64.toRat_eq (h.natural t ht), Nat.cast_eq_zero, Nat.cast_eq_one]
    have := h.natExponent_le ht
    omega
  have products : ∀ t ∈ p.terms, OnGrid (t.coefficient.toRat * t.exponent.toRat) := by
    intro t ht
    rcases unit t ht with zero | one
    · rw [zero, mul_zero]
      exact onGrid_zero
    · rw [one, mul_one]
      exact Binary64.onGrid_of_toRat? (Binary64.toRat?_of_finite (finite t ht))
  have values : ∀ t ∈ p.exact, t.leftValue x + t.realValue 0 = t.realValue 1 := by
    intro t ht
    obtain ⟨u, hu, rfl⟩ := List.mem_map.mp ht
    exact Summand.leftValue_of_unit (t := u.summand.map Binary64.toRat) (exponents u hu) (unit u hu) x
  rw [realValue, exact_derivative finite exponents products, Summand.realTotal_derivative, eq_sub_iff_add_eq,
    realValue, Summand.realTotal, ← List.sum_map_add, List.map_congr_left values]
  rfl

end Member

namespace Equation

variable {f : Equation}

theorem degree_line (explicit : f.isExplicit = true) (h : f.right.IsLinear) :
    f.degree.same (.ofInt 1) = true := by
  have right : f.right.degree.toRat? = some 1 := by
    rw [h.natural.toRat?_degree, h.degree, Nat.cast_one]
  have left : f.left.degree.toRat? = some 1 := by
    unfold isExplicit at explicit
    split at explicit
    · next t single =>
      have dependent := (Bool.and_eq_true_iff.mp explicit).1
      unfold Term.isDependent at dependent
      cases literal : t.literal with
      | none =>
        rw [literal] at dependent
        cases dependent
      | some l =>
        rw [literal] at dependent
        have degree : f.left.degree = l.exponent := by
          rw [Member.degree, single, List.filterMap_cons, literal]
          rfl
        rw [degree]
        exact Binary64.toRat?_of_same Binary64.toRat?_one (Bool.and_eq_true_iff.mp dependent).2
    · cases explicit
  have largest := Binary64.toRat?_max left right
  rw [max_self] at largest
  exact (Binary64.same_iff largest Binary64.toRat?_one).mpr rfl

theorem slope_line (explicit : f.isExplicit = true) (h : f.right.IsLinear) {first : Term} {rest : List Term}
    (terms : f.right.linearTerms = first :: rest) : f.slope = some (.ofValue first.coefficient) := by
  rw [slope, degree_line explicit h, toExplicit_eq_self explicit]
  dsimp only
  rw [h.getByExponent?, terms]
  rfl

/-- A line has a slope: the coefficient of its first term with a letter. The derivative is a constant, which is
the rate of change between 0 and 1. The slope is less by the coefficients of the other terms with a letter, and
so it is the rate of change exactly where these add up to 0. Acute, right and obtuse follow its sign. -/
theorem slope_rate (explicit : f.isExplicit = true) (natural : f.right.HasNaturalExponents)
    (degree : f.right.writtenDegree = 1) (finite : ∀ t ∈ f.right.terms, t.coefficient.isFinite = true) :
    ∃ s g first rest, f.slope = some s ∧ f.derive 1 = .ok g ∧
      (f.right.terms.filter fun t => !t.isConstant) = first :: rest ∧ s.value = first.coefficient ∧
      (∀ x, g.right.realValue x = f.right.realValue 1 - f.right.realValue 0) ∧
      f.right.realValue 1 - f.right.realValue 0 = s.value.toRat + coefficientTotal rest ∧
      ((s.value.toRat : ℝ) = f.right.realValue 1 - f.right.realValue 0 ↔ coefficientTotal rest = 0) ∧
      (s.isAcute = true ↔ 0 < s.value.toRat) ∧ (s.isRight = true ↔ s.value.toRat = 0) ∧
      (s.isObtuse = true ↔ s.value.toRat < 0) := by
  have h : f.right.IsLinear := ⟨natural, degree⟩
  obtain ⟨first, rest, terms⟩ := h.exists_cons
  have rate : f.right.realValue 1 - f.right.realValue 0 = first.coefficient.toRat + coefficientTotal rest := by
    rw [h.realValue_sub, terms, coefficientTotal_cons, Rat.cast_add]
  have value : first.coefficient.toRat? = some first.coefficient.toRat := by
    have stands : first ∈ f.right.linearTerms := terms ▸ List.mem_cons_self
    exact Binary64.toRat?_of_finite (finite first (List.mem_of_mem_filter stands))
  refine ⟨.ofValue first.coefficient, _, first, rest, slope_line explicit h terms, derive_explicit explicit, terms,
    rfl, h.realValue_derivative finite, rate, ?_, Binary64.isPositive_iff value, Binary64.isZero_iff value,
    Binary64.lt_iff value Binary64.toRat?_zero⟩
  have same : (Slope.ofValue first.coefficient).value = first.coefficient := rfl
  rw [rate, same, left_eq_add, Rat.cast_eq_zero]

/-- The other terms of the letter cancel, and the slope is 2. -/
theorem slope_rate_cancelling : ∃ f s g, parse "y=2x+x-2-x" = .ok f ∧ f.slope = some s ∧ f.derive 1 = .ok g ∧
    s.value = .ofInt 2 ∧ s.isAcute = true ∧ f.right.realValue 1 - f.right.realValue 0 = s.value.toRat ∧
    ∀ x, g.right.realValue x = s.value.toRat := by
  let linear (a : ℤ) : Term := ⟨.ofInt a, some (.ofLetter "x")⟩
  let f : Equation := ⟨⟨[⟨.ofInt 1, some (.ofLetter "y")⟩]⟩,
    ⟨[linear 2, linear 1, .constant (.ofInt (-2)), linear (-1)]⟩⟩
  have read : parse "y=2x+x-2-x" = .ok f := by decide +kernel
  have natural : ∀ t ∈ f.right.terms, t.exponent.toRat? = some (t.natExponent : ℚ) := by decide +kernel
  obtain ⟨s, g, first, rest, slope, derived, terms, value, constant, rate, agrees, acute, -, -⟩ :=
    slope_rate (f := f) (by decide +kernel) natural (by decide +kernel) (by decide +kernel)
  have written : (f.right.terms.filter fun t => !t.isConstant) = [linear 2, linear 1, linear (-1)] := by
    decide +kernel
  obtain ⟨rfl, rfl⟩ := List.cons_eq_cons.mp (terms.symm.trans written)
  have cancel : coefficientTotal [linear 1, linear (-1)] = 0 := by decide +kernel
  have same := (agrees.mpr cancel).symm
  have positive : 0 < s.value.toRat := by
    rw [value]
    decide +kernel
  exact ⟨f, s, g, read, slope, derived, value, acute.mpr positive, same, fun x => (constant x).trans same⟩

/-- Of `2x-3x` only `2x` makes the slope, but the rate of change is -1. -/
theorem slope_first_term : ∃ f g, parse "y=2x-3x" = .ok f ∧ f.slope = some (.ofValue (.ofInt 2)) ∧
    f.derive 1 = .ok g ∧ g.text = "y'=2-3" ∧ f.right.realValue 1 - f.right.realValue 0 = -1 := by
  let linear (a : ℤ) : Term := ⟨.ofInt a, some (.ofLetter "x")⟩
  let f : Equation := ⟨⟨[⟨.ofInt 1, some (.ofLetter "y")⟩]⟩, ⟨[linear 2, linear (-3)]⟩⟩
  have read : parse "y=2x-3x" = .ok f := by decide +kernel
  have explicit : f.isExplicit = true := by decide +kernel
  have natural : ∀ t ∈ f.right.terms, t.exponent.toRat? = some (t.natExponent : ℚ) := by decide +kernel
  have line : f.right.IsLinear := ⟨natural, by decide +kernel⟩
  have terms : f.right.linearTerms = [linear 2, linear (-3)] := by decide +kernel
  have sum : coefficientTotal [linear 2, linear (-3)] = -1 := by decide +kernel
  refine ⟨f, _, read, slope_line explicit line terms, derive_explicit explicit, by decide +kernel, ?_⟩
  rw [line.realValue_sub, terms, sum, Rat.cast_neg, Rat.cast_one]

end Equation

end FunctionStudy
