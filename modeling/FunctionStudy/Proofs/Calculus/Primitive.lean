import Mathlib.Analysis.Calculus.Deriv.Polynomial
import Mathlib.MeasureTheory.Integral.IntervalIntegral.FundThmCalculus
import FunctionStudy.Proofs.Evaluation
import FunctionStudy.Proofs.Faults.Calculus

/-! Primitives of integer polynomials. Where their rational coefficients are doubles and written as
they are, the values of the program are those of the primitive, and their differences are integrals. -/

namespace FunctionStudy

open Polynomial

variable {p : Member} {t : Term} {l : Char}

section Values

/-- The coefficient that the primitive of a term has, nothing rounded. -/
def Term.raisedCoefficient (t : Term) : ℚ := t.intCoefficient / (t.natExponent + 1 : ℕ)

namespace Member

/-- The value of the primitive, nothing rounded. -/
def primitiveAt (x : ℚ) (p : Member) : ℚ :=
  (p.terms.map fun t => t.raisedCoefficient * x ^ (t.natExponent + 1)).sum

noncomputable def primitivePolynomial (p : Member) : ℚ[X] :=
  (p.terms.map fun t => monomial (t.natExponent + 1) t.raisedCoefficient).sum

theorem eval_primitivePolynomial (x : ℚ) (p : Member) : p.primitivePolynomial.eval x = p.primitiveAt x := by
  unfold primitivePolynomial primitiveAt
  induction p.terms with
  | nil => exact eval_zero
  | cons t rest ih => rw [List.map_cons, List.sum_cons, eval_add, eval_monomial, ih, List.map_cons, List.sum_cons]

theorem derivative_primitivePolynomial (p : Member) :
    Polynomial.derivative p.primitivePolynomial = p.toPolynomial.map (Int.castRingHom ℚ) := by
  unfold primitivePolynomial toPolynomial
  induction p.terms with
  | nil => simp
  | cons t rest ih =>
    have lowered : t.raisedCoefficient * ((t.natExponent + 1 : ℕ) : ℚ) = t.intCoefficient :=
      div_mul_cancel₀ _ (by exact_mod_cast Nat.succ_ne_zero t.natExponent)
    rw [List.map_cons, List.sum_cons, derivative_add, ih, derivative_monomial, lowered, Nat.add_sub_cancel,
      List.map_cons, List.sum_cons, Polynomial.map_add, map_monomial]
    rfl

theorem hasDerivAt_primitivePolynomial (p : Member) (x : ℝ) :
    HasDerivAt (fun y => aeval y p.primitivePolynomial) (aeval x p.toPolynomial) x := by
  have slope : aeval x (Polynomial.derivative p.primitivePolynomial) = aeval x p.toPolynomial := by
    rw [derivative_primitivePolynomial]
    exact aeval_map_algebraMap ℚ x p.toPolynomial
  exact slope ▸ p.primitivePolynomial.hasDerivAt_aeval x

theorem integral_toPolynomial (p : Member) (a b : ℚ) :
    ∫ x in (a : ℝ)..b, aeval x p.toPolynomial = ((p.primitiveAt b - p.primitiveAt a : ℚ) : ℝ) := by
  have value : ∀ x : ℚ, aeval (x : ℝ) p.primitivePolynomial = (p.primitiveAt x : ℝ) := fun x => by
    rw [← eval_primitivePolynomial]
    exact aeval_algebraMap_apply_eq_algebraMap_eval x p.primitivePolynomial
  rw [intervalIntegral.integral_eq_sub_of_hasDerivAt (fun x _ => p.hasDerivAt_primitivePolynomial x)
    (p.toPolynomial.continuous_aeval.intervalIntegrable _ _), value, value, Rat.cast_sub]

end Member

end Values

section Program

variable {ts us : List Term}

/-- The coefficients of the primitive are doubles that are written as they are. -/
def Member.IntegratesExactly (p : Member) : Prop :=
  ∀ t ∈ p.terms, OnGrid t.raisedCoefficient ∧ FunctionStudy.writtenValue t.raisedCoefficient = t.raisedCoefficient

theorem writtenValue_of_raised (raised : List.Forall₂ (Term.IsRaised l) ts us)
    (terms : ∀ t ∈ ts, t.IsIntegerIn l) (exact : Member.IntegratesExactly ⟨ts⟩) (x : ℚ) :
    Member.writtenValue x ⟨us⟩ = Member.primitiveAt x ⟨ts⟩ := by
  induction raised with
  | nil => rfl
  | @cons t u ts us first _ ih =>
    obtain ⟨own, terms⟩ := List.forall_mem_cons.mp terms
    obtain ⟨⟨grid, written⟩, others⟩ := List.forall_mem_cons.mp exact
    have rest := ih terms others
    have quotient : t.raisedCoefficient = t.coefficient.toRat / (t.natExponent + 1 : ℕ) := by
      rw [Binary64.toRat_eq own.toRat?_coefficient, Term.raisedCoefficient]
    have coefficient : u.coefficient.toRat = t.raisedCoefficient :=
      (first.exact (quotient ▸ grid)).trans quotient.symm
    unfold Member.writtenValue Member.primitiveAt at rest ⊢
    rw [List.map_cons, List.sum_cons, rest, Term.writtenValue, first.exponent, coefficient, written,
      List.map_cons, List.sum_cons]

theorem primitiveAt_filter (terms : ∀ t ∈ ts, t.IsIntegerIn l) (x : ℚ) :
    Member.primitiveAt x ⟨ts.filter fun t => !t.coefficient.isZero⟩ = Member.primitiveAt x ⟨ts⟩ := by
  induction ts with
  | nil => rfl
  | cons t rest ih =>
    obtain ⟨own, others⟩ := List.forall_mem_cons.mp terms
    have same := ih others
    unfold Member.primitiveAt at same ⊢
    by_cases zero : t.coefficient.isZero = true
    · have none : t.raisedCoefficient = 0 := by
        rw [Term.raisedCoefficient, (Binary64.isZero_iff own.toRat?_coefficient).mp zero, zero_div]
      rw [List.filter_cons_of_neg (by simp [zero]), same, List.map_cons, List.sum_cons, none, zero_mul, zero_add]
    · rw [List.filter_cons_of_pos (by simp [zero]), List.map_cons, List.sum_cons, same, List.map_cons,
        List.sum_cons]

/-- A function of integer terms in one letter has a primitive, and the primitive a value at every finite double.
Where the coefficients are exact, the value is the double nearest to the one that is not rounded. -/
theorem Equation.exists_primitive {f : Equation} (hp : f.polynomial = .ok p) (hl : IsReadable l)
    (terms : ∀ t ∈ p.terms, t.IsIntegerIn l) (small : ∀ t ∈ p.terms, t.natExponent < 2 ^ 53) :
    ∃ (F : Primitive) (right : Member), f.primitive = .ok F ∧ F.function = .explicit "y" right ∧
      (∀ x v, x.toRat? = some v →
        F.function.evaluate (.double x) = .ok (.round (right.writtenValue (FunctionStudy.writtenValue v)))) ∧
      (p.IntegratesExactly → ∀ x, right.writtenValue x = p.primitiveAt x) := by
  obtain ⟨m, hm, letter, isIn⟩ := Member.IsIn.exists_letter (fun t ht => (terms t ht).isPowerOf) hl
  have integers : ∀ t ∈ p.terms, t.IsIntegerIn m := fun t ht => ⟨(terms t ht).coefficient, isIn t ht⟩
  obtain ⟨F, us, own, function, raised⟩ :=
    exists_primitive_raised hp letter isIn small fun t ht => (terms t ht).isFinite
  refine ⟨F, ⟨us⟩, own, function, fun x v hx => ?_, fun exact x => ?_⟩
  · rw [function, evaluate, polynomial_explicit]
    exact (Member.isEvaluable_of_raised hm raised).evaluate_eq hx
  · rw [writtenValue_of_raised raised (fun t ht => integers t (List.mem_of_mem_filter ht))
      fun t ht => exact t (List.mem_of_mem_filter ht), primitiveAt_filter integers]

end Program

end FunctionStudy
