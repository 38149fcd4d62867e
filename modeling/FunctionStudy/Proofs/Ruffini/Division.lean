import Mathlib.Algebra.Order.Field.Rat
import Mathlib.Tactic.Linarith
import Mathlib.Tactic.LinearCombination
import Mathlib.Tactic.Ring
import FunctionStudy.Ruffini.SyntheticDivision

/-! Sums of synthetic division. The sums of dividing by `x - root` are the coefficients of the
quotient and, at the end, the value at the root. All of this is exact; rounding the table is not
looked at here. -/

namespace FunctionStudy

variable {root sum : ℚ}

theorem sumsAfter_ne_nil (root sum : ℚ) (cs : List ℚ) : sumsAfter root sum cs ≠ [] := by
  cases cs <;> simp [sumsAfter]

theorem denseValue_step (root sum c : ℚ) (rest : List ℚ) :
    denseValue ((c + sum * root) :: rest) root = denseValue (sum :: c :: rest) root := by
  simp only [denseValue, List.length_cons]
  ring

theorem getLast?_sumsAfter (root sum : ℚ) (cs : List ℚ) :
    (sumsAfter root sum cs).getLast? = some (denseValue (sum :: cs) root) := by
  induction cs generalizing sum with
  | nil => simp [sumsAfter, denseValue]
  | cons c rest ih =>
    rw [sumsAfter, List.getLast?_cons_of_ne_nil (sumsAfter_ne_nil _ _ _), ih, denseValue_step]

/-- The polynomial is the divisor times the quotient, plus the remainder. -/
theorem denseValue_eq_mul_quotient (root sum x : ℚ) (cs : List ℚ) :
    denseValue (sum :: cs) x =
      (x - root) * denseValue (sumsAfter root sum cs).dropLast x + denseValue (sum :: cs) root := by
  induction cs generalizing sum with
  | nil => simp [sumsAfter, denseValue]
  | cons c rest ih =>
    have step := ih (c + sum * root)
    rw [sumsAfter, List.dropLast_cons_of_ne_nil (sumsAfter_ne_nil _ _ _)]
    simp only [denseValue, List.length_cons, List.length_dropLast, length_sumsAfter,
      Nat.add_sub_cancel] at step ⊢
    linear_combination step

theorem syntheticDivision_of_toRat {cs : List Number} {first : ℚ} {others : List ℚ}
    (h : cs.mapM Number.toRat = .ok (first :: others)) (root : ℚ) :
    syntheticDivision cs (.exact root) = .ok (divideSynthetically first others root) := by
  rw [syntheticDivision, h]
  rfl

theorem syntheticDivision_eq {cs : List Binary64} {first : ℚ} {others : List ℚ}
    (h : cs.mapM Decimal.exact = .ok (first :: others)) (root : ℚ) :
    syntheticDivision (cs.map .double) (.exact root) =
      .ok (divideSynthetically first others root) := by
  refine syntheticDivision_of_toRat ?_ root
  rw [List.mapM_map]
  exact h

theorem syntheticDivision_exact (first : ℚ) (others : List ℚ) (root : ℚ) :
    syntheticDivision ((first :: others).map .exact) (.exact root) =
      .ok (divideSynthetically first others root) := by
  refine syntheticDivision_of_toRat ?_ root
  rw [List.mapM_map]
  exact (List.mapM_pure (f := id)).trans (congrArg Except.ok (List.map_id _))

theorem getElem?_products {first : ℚ} {others : List ℚ} {i : ℕ} (inside : i < others.length) :
    ∃ s, (divideSynthetically first others root).sums[i]? = some s ∧
      (divideSynthetically first others root).products[i]? = some (root * s) := by
  have known : i < (sumsAfter root first others).dropLast.length := by
    rwa [List.length_dropLast, length_sumsAfter, Nat.add_sub_cancel]
  refine ⟨(sumsAfter root first others).dropLast[i], ?_, ?_⟩
  · rw [List.getElem_dropLast, divideSynthetically]
    exact List.getElem?_eq_getElem _
  · rw [divideSynthetically, List.getElem?_map, List.getElem?_eq_getElem known, Option.map_some, mul_comm]

/-- Dividing by `x - root` gives a product for each coefficient but the first one, which is the root times the sum
before it, and a sum for each coefficient: the coefficients of the quotient, and then the remainder, which is the
value at the root. -/
theorem syntheticDivision_divides (first : ℚ) (others : List ℚ) (root : ℚ) :
    ∃ d, syntheticDivision ((first :: others).map .exact) (.exact root) = .ok d ∧
      d.products.length = others.length ∧ d.sums.length = others.length + 1 ∧
      (∀ i < others.length, ∃ s, d.sums[i]? = some s ∧ d.products[i]? = some (root * s)) ∧
      ∃ remainder, d.sums.getLast? = some remainder ∧ remainder = denseValue (first :: others) root ∧
        ∀ x, denseValue (first :: others) x = (x - root) * denseValue d.sums.dropLast x + remainder := by
  refine ⟨_, syntheticDivision_exact first others root, ?_, length_sumsAfter root first others,
    fun i inside => getElem?_products inside, _, getLast?_sumsAfter root first others, rfl,
    fun x => denseValue_eq_mul_quotient root first x others⟩
  rw [divideSynthetically, List.length_map, List.length_dropLast, length_sumsAfter, Nat.add_sub_cancel]

end FunctionStudy
