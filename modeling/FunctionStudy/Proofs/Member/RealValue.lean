import Mathlib.Analysis.SpecialFunctions.Pow.Real
import FunctionStudy.Proofs.Binary64.Order
import FunctionStudy.Proofs.Equation.Isolation

/-! Real values. A member has a value at every real number that its letters may stand for, with the
coefficients taken exactly and powers of real exponents. At 0 only the constants count, and at 1 all
coefficients alike. -/

namespace FunctionStudy

namespace Summand

variable {x : ℝ} {t : Summand ℚ} {ts us : List (Summand ℚ)}

noncomputable def realValue (x : ℝ) (t : Summand ℚ) : ℝ := t.coefficient * x ^ (t.exponent.toRat : ℝ)

noncomputable def realTotal (x : ℝ) (ts : List (Summand ℚ)) : ℝ := (ts.map (·.realValue x)).sum

@[simp] theorem realTotal_nil (x : ℝ) : realTotal x [] = 0 := rfl

@[simp] theorem realTotal_cons (x : ℝ) (t : Summand ℚ) (ts : List (Summand ℚ)) :
    realTotal x (t :: ts) = t.realValue x + realTotal x ts := List.sum_cons

theorem realTotal_append (x : ℝ) (ts us : List (Summand ℚ)) :
    realTotal x (ts ++ us) = realTotal x ts + realTotal x us := by
  rw [realTotal, List.map_append, List.sum_append]
  rfl

theorem realValue_one (t : Summand ℚ) : t.realValue 1 = t.coefficient := by
  rw [realValue, Real.one_rpow, mul_one]

theorem realValue_zero (t : Summand ℚ) :
    t.realValue 0 = if t.exponent.toRat = 0 then (t.coefficient : ℝ) else 0 := by
  unfold realValue
  split_ifs with none
  · rw [none, Rat.cast_zero, Real.rpow_zero, mul_one]
  · rw [Real.zero_rpow (Rat.cast_ne_zero.mpr none), mul_zero]

end Summand

/-- The sum of the coefficients, nothing rounded. -/
def coefficientTotal (ts : List Term) : ℚ := (ts.map (·.coefficient.toRat)).sum

@[simp] theorem coefficientTotal_cons (t : Term) (ts : List Term) :
    coefficientTotal (t :: ts) = t.coefficient.toRat + coefficientTotal ts := List.sum_cons

theorem Term.isConstant_iff {t : Term} (finite : t.exponent.isFinite = true) :
    t.isConstant = true ↔ t.exponent.toRat = 0 := by
  rw [← Binary64.isZero_iff (Binary64.toRat?_of_finite finite)]
  obtain ⟨c, literal⟩ := t
  cases literal <;> rfl

namespace Member

variable {p : Member}

def exact (p : Member) : List (Summand ℚ) := p.terms.map fun t => t.summand.map Binary64.toRat

/-- The value where every letter is the same number. -/
noncomputable def realValue (x : ℝ) (p : Member) : ℝ := Summand.realTotal x p.exact

theorem realValue_one (p : Member) : p.realValue 1 = coefficientTotal p.terms := by
  obtain ⟨ts⟩ := p
  induction ts with
  | nil => exact Rat.cast_zero.symm
  | cons t rest ih =>
    have value := (t.summand.map Binary64.toRat).realValue_one
    rw [realValue, exact, List.map_cons, Summand.realTotal_cons, value, coefficientTotal_cons, Rat.cast_add, ← ih]
    rfl

theorem realValue_zero (finite : ∀ t ∈ p.terms, t.exponent.isFinite = true) :
    p.realValue 0 = coefficientTotal (p.terms.filter (·.isConstant)) := by
  obtain ⟨ts⟩ := p
  induction ts with
  | nil => exact Rat.cast_zero.symm
  | cons t rest ih =>
    obtain ⟨own, others⟩ := List.forall_mem_cons.mp finite
    have value := (t.summand.map Binary64.toRat).realValue_zero
    have exponent : (t.summand.map Binary64.toRat).exponent = t.exponent := rfl
    rw [realValue, exact, List.map_cons, Summand.realTotal_cons, value, exponent]
    by_cases constant : t.isConstant = true
    · rw [if_pos ((Term.isConstant_iff own).mp constant), List.filter_cons_of_pos constant, coefficientTotal_cons,
        Rat.cast_add, ← ih others]
      rfl
    · rw [if_neg (mt (Term.isConstant_iff own).mpr constant), List.filter_cons_of_neg constant, zero_add, ← ih others]
      rfl

end Member
end FunctionStudy
