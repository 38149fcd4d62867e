import Mathlib.Algebra.BigOperators.Group.List.Basic
import Mathlib.Algebra.Order.BigOperators.Group.List
import Mathlib.RingTheory.Coprime.Lemmas
import Mathlib.RingTheory.Int.Basic
import Mathlib.Tactic.FieldSimp
import Mathlib.Tactic.Positivity
import FunctionStudy.Proofs.Ruffini.Division

/-! Quotients by a rational root in lowest terms. Clearing the denominator from the front and the
numerator from the back leaves nothing to clear, so the sums are integers. -/

namespace FunctionStudy

def AreIntegers (cs : List ℚ) : Prop := ∀ c ∈ cs, ∃ z : ℤ, c = z

variable {root sum : ℚ} {cs : List ℚ}

theorem AreIntegers.head {c : ℚ} (h : AreIntegers (c :: cs)) : ∃ z : ℤ, c = z :=
  h c List.mem_cons_self

theorem AreIntegers.tail {c : ℚ} (h : AreIntegers (c :: cs)) : AreIntegers cs :=
  fun d hd => h d (List.mem_cons_of_mem c hd)

theorem root_eq (root : ℚ) : root * root.den = root.num := Rat.mul_den_eq_num root

/-- Powers of the denominator clear the sums from the front. -/
theorem exists_den_pow_mul (h : AreIntegers cs) (start : ∃ (i : ℕ) (z : ℤ), (root.den : ℚ) ^ i * sum = z) :
    ∀ s ∈ sumsAfter root sum cs, ∃ (i : ℕ) (z : ℤ), (root.den : ℚ) ^ i * s = z := by
  induction cs generalizing sum with
  | nil =>
    intro s hs
    obtain rfl : s = sum := by simpa [sumsAfter] using hs
    exact start
  | cons c rest ih =>
    intro s hs
    rw [sumsAfter, List.mem_cons] at hs
    rcases hs with rfl | hs
    · exact start
    · refine ih h.tail ?_ s hs
      obtain ⟨i, z, hz⟩ := start
      obtain ⟨w, rfl⟩ := h.head
      refine ⟨i + 1, root.den ^ (i + 1) * w + z * root.num, ?_⟩
      push_cast
      rw [← hz, ← root_eq root]
      ring

theorem exists_den_pow_mul_denseValue (root : ℚ) (h : AreIntegers cs) :
    ∃ z : ℤ, (root.den : ℚ) ^ cs.length * denseValue cs root = z := by
  induction cs with
  | nil => exact ⟨0, by simp [denseValue]⟩
  | cons c rest ih =>
    obtain ⟨z, hz⟩ := ih h.tail
    obtain ⟨w, rfl⟩ := h.head
    refine ⟨root.den * (w * root.num ^ rest.length + z), ?_⟩
    push_cast
    rw [← hz, ← root_eq root, denseValue, List.length_cons]
    ring

theorem exists_num_pow_mul_first (h : AreIntegers cs) (zero : denseValue (sum :: cs) root = 0) :
    ∃ (j : ℕ) (z : ℤ), (root.num : ℚ) ^ j * sum = z := by
  obtain ⟨z, hz⟩ := exists_den_pow_mul_denseValue root h
  refine ⟨cs.length, -z, ?_⟩
  rw [denseValue] at zero
  push_cast
  rw [← hz, ← root_eq root, mul_pow]
  linear_combination (root.den : ℚ) ^ cs.length * zero

/-- Powers of the numerator clear the sums from the back. -/
theorem exists_num_pow_mul (h : AreIntegers cs) (zero : denseValue (sum :: cs) root = 0) :
    ∀ s ∈ sumsAfter root sum cs, ∃ (j : ℕ) (z : ℤ), (root.num : ℚ) ^ j * s = z := by
  induction cs generalizing sum with
  | nil =>
    intro s hs
    obtain rfl : s = sum := by simpa [sumsAfter] using hs
    exact exists_num_pow_mul_first h zero
  | cons c rest ih =>
    intro s hs
    rw [sumsAfter, List.mem_cons] at hs
    rcases hs with rfl | hs
    · exact exists_num_pow_mul_first h zero
    · exact ih h.tail ((denseValue_step _ _ _ _).trans zero) s hs

/-- Numerator and denominator have no factor in common, so the sums are integers. -/
theorem areIntegers_sumsAfter (h : AreIntegers (sum :: cs)) (zero : denseValue (sum :: cs) root = 0) :
    AreIntegers (sumsAfter root sum cs) := by
  intro s hs
  obtain ⟨w, hw⟩ := h.head
  obtain ⟨i, y, hy⟩ := exists_den_pow_mul h.tail ⟨0, w, by simpa using hw⟩ s hs
  obtain ⟨j, z, hz⟩ := exists_num_pow_mul h.tail zero s hs
  have coprime : IsCoprime ((root.den : ℤ) ^ i) (root.num ^ j) := by
    apply IsCoprime.pow
    rw [Int.isCoprime_iff_nat_coprime, Int.natAbs_natCast]
    exact root.reduced.symm
  obtain ⟨a, b, bezout⟩ := coprime
  have bezout' : (a : ℚ) * (root.den : ℚ) ^ i + b * (root.num : ℚ) ^ j = 1 := by
    exact_mod_cast bezout
  refine ⟨a * y + b * z, ?_⟩
  push_cast
  rw [← hy, ← hz]
  linear_combination (-s) * bezout'

section Size

/-- The sizes of all coefficients together. -/
def totalSize (cs : List ℚ) : ℚ := (cs.map abs).sum

@[simp] theorem totalSize_cons (c : ℚ) (cs : List ℚ) : totalSize (c :: cs) = |c| + totalSize cs := by
  simp [totalSize]

theorem totalSize_nonneg (cs : List ℚ) : 0 ≤ totalSize cs := by
  induction cs with
  | nil => simp [totalSize]
  | cons c rest ih => rw [totalSize_cons]; positivity

/-- Below a root of size at most 1 the sums grow by the coefficients only. -/
theorem abs_le_of_small_root (small : |root| ≤ 1) :
    ∀ s ∈ sumsAfter root sum cs, |s| ≤ |sum| + totalSize cs := by
  induction cs generalizing sum with
  | nil => simp [sumsAfter, totalSize]
  | cons c rest ih =>
    intro s hs
    rw [sumsAfter, List.mem_cons] at hs
    rw [totalSize_cons]
    rcases hs with rfl | hs
    · have := totalSize_nonneg rest
      have := abs_nonneg c
      linarith
    · have next : |c + sum * root| ≤ |c| + |sum| := by
        calc |c + sum * root| ≤ |c| + |sum * root| := abs_add_le _ _
          _ ≤ |c| + |sum| := by
            rw [abs_mul]
            linarith [mul_le_of_le_one_right (abs_nonneg sum) small]
      linarith [ih s hs]

theorem abs_denseValue_le (large : 1 ≤ |root|) :
    |denseValue cs root| ≤ totalSize cs * |root| ^ cs.length := by
  induction cs with
  | nil => simp [denseValue, totalSize]
  | cons c rest ih =>
    have power : |root| ^ rest.length ≤ |root| ^ (rest.length + 1) :=
      pow_le_pow_right₀ large (Nat.le_succ _)
    rw [denseValue, totalSize_cons, List.length_cons]
    calc |c * root ^ rest.length + denseValue rest root|
        ≤ |c| * |root| ^ rest.length + totalSize rest * |root| ^ rest.length := by
          refine (abs_add_le _ _).trans ?_
          rw [abs_mul, abs_pow]
          linarith
      _ = (|c| + totalSize rest) * |root| ^ rest.length := by ring
      _ ≤ (|c| + totalSize rest) * |root| ^ (rest.length + 1) :=
        mul_le_mul_of_nonneg_left power (add_nonneg (abs_nonneg c) (totalSize_nonneg rest))

/-- Above it, what is still to come has to cancel them. -/
theorem abs_le_of_large_root (large : 1 ≤ |root|) (zero : denseValue (sum :: cs) root = 0) :
    ∀ s ∈ sumsAfter root sum cs, |s| ≤ totalSize cs := by
  have first : ∀ {sum : ℚ} {cs : List ℚ}, denseValue (sum :: cs) root = 0 → |sum| ≤ totalSize cs := by
    intro sum cs zero
    rw [denseValue] at zero
    have same : |sum| * |root| ^ cs.length = |denseValue cs root| := by
      rw [← abs_pow, ← abs_mul, eq_neg_of_add_eq_zero_left zero, abs_neg]
    have positive : 0 < |root| ^ cs.length := by positivity
    exact le_of_mul_le_mul_right (same.trans_le (abs_denseValue_le large)) positive
  induction cs generalizing sum with
  | nil =>
    intro s hs
    obtain rfl : s = sum := by simpa [sumsAfter] using hs
    exact first zero
  | cons c rest ih =>
    intro s hs
    rw [sumsAfter, List.mem_cons] at hs
    rcases hs with rfl | hs
    · exact first zero
    · rw [totalSize_cons]
      linarith [ih ((denseValue_step _ _ _ _).trans zero) s hs, abs_nonneg c]

theorem abs_sumsAfter_le (zero : denseValue (sum :: cs) root = 0) :
    ∀ s ∈ sumsAfter root sum cs, |s| ≤ totalSize (sum :: cs) := by
  intro s hs
  rw [totalSize_cons]
  rcases le_total |root| 1 with small | large
  · exact abs_le_of_small_root small s hs
  · linarith [abs_le_of_large_root large zero s hs, abs_nonneg sum]

theorem exists_next_sum (root sum : ℚ) (cs : List ℚ) :
    ∀ s ∈ (sumsAfter root sum cs).dropLast, ∃ c ∈ cs, c + s * root ∈ sumsAfter root sum cs := by
  induction cs generalizing sum with
  | nil => simp [sumsAfter]
  | cons c rest ih =>
    intro s hs
    rw [sumsAfter, List.dropLast_cons_of_ne_nil (sumsAfter_ne_nil _ _ _), List.mem_cons] at hs
    rcases hs with rfl | hs
    · refine ⟨c, by simp, ?_⟩
      cases rest <;> simp [sumsAfter]
    · obtain ⟨d, hd, next⟩ := ih _ s hs
      exact ⟨d, by simp [hd], by simp [sumsAfter, next]⟩

theorem abs_le_totalSize {c : ℚ} (h : c ∈ cs) : |c| ≤ totalSize cs :=
  List.single_le_sum (by simp) _ (List.mem_map_of_mem h)

theorem abs_products_le (zero : denseValue (sum :: cs) root = 0) :
    ∀ s ∈ (sumsAfter root sum cs).dropLast, |s * root| ≤ 2 * totalSize (sum :: cs) := by
  intro s hs
  obtain ⟨c, hc, next⟩ := exists_next_sum root sum cs s hs
  have coefficient := abs_le_totalSize (List.mem_cons_of_mem sum hc)
  have bound := abs_sumsAfter_le zero _ next
  calc |s * root| = |(c + s * root) - c| := by rw [add_sub_cancel_left]
    _ ≤ |c + s * root| + |c| := abs_sub _ _
    _ ≤ 2 * totalSize (sum :: cs) := by linarith

end Size

end FunctionStudy
