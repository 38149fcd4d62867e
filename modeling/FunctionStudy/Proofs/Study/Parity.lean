import Mathlib.Algebra.MvPolynomial.Eval
import FunctionStudy.Proofs.Member.LikeTerms
import FunctionStudy.Proofs.Work
import FunctionStudy.Study.Parity

/-! Parity of polynomials. Negating the terms of odd exponent gives the polynomial with every letter
negated, so comparing canonical forms decides whether the function is even or odd. -/

namespace FunctionStudy

open MvPolynomial (C X aeval)

variable {p : Member} {t : Term} {w : Power}

section Signs

/-- The exponent of a power; constants have exponent 0. -/
def Power.exponent (w : Power) : ℕ := w.elim 0 (·.2)

/-- The sign of a power of -1. -/
def Power.reflection (w : Power) : ℤ := (-1) ^ w.exponent

namespace Term

theorem exponent_power (t : Term) : t.power.exponent = t.natExponent := by
  obtain ⟨c, literal⟩ := t
  cases literal with
  | none => simp [power, Power.exponent, natExponent, exponent, Binary64.toRat]
  | some l =>
    unfold power
    split_ifs with zero
    · exact zero.symm
    · rfl

/-- A term of the same power with an integer multiple of the coefficient. -/
structure IsMultiple (t u : Term) (sign : ℤ) : Prop where
  power : u.power = t.power
  coefficient : u.intCoefficient = sign * t.intCoefficient

theorem IsInteger.isMultiple_negated (h : t.IsInteger) : t.IsMultiple t.negated (-1) := by
  have value : t.negated.coefficient.toRat? = some (-(t.intCoefficient : ℚ)) :=
    Binary64.toRat?_neg h.toRat?_coefficient
  refine ⟨rfl, ?_⟩
  rw [intCoefficient, Binary64.toRat_eq value, ← Int.cast_neg, Rat.num_intCast, neg_one_mul]

theorem IsInteger.negated (h : t.IsInteger) : t.negated.IsInteger := by
  obtain ⟨z, hz⟩ := h.coefficient
  refine ⟨⟨-z, ?_⟩, h.exponent⟩
  rw [Int.cast_neg]
  exact Binary64.toRat?_neg hz

theorem IsInteger.reflected_cases (h : t.IsInteger) :
    Odd t.natExponent ∧ t.reflected = t.negated ∨ Even t.natExponent ∧ t.reflected = t := by
  have parity : t.exponent.toRat.num % 2 = 0 ↔ Even t.natExponent := by
    rw [Binary64.toRat_eq h.toRat?_exponent, Rat.num_natCast, Nat.even_iff]
    omega
  rw [Term.reflected, ← Nat.not_even_iff_odd]
  by_cases even : Even t.natExponent
  · exact .inr ⟨even, if_pos (parity.mpr even)⟩
  · exact .inl ⟨even, if_neg (mt parity.mp even)⟩

theorem IsInteger.isMultiple_reflected (h : t.IsInteger) : t.IsMultiple t.reflected t.power.reflection := by
  rw [Power.reflection, exponent_power]
  rcases h.reflected_cases with ⟨odd, same⟩ | ⟨even, same⟩
  · rw [same, odd.neg_one_pow]
    exact h.isMultiple_negated
  · rw [same, even.neg_one_pow]
    exact ⟨rfl, (one_mul _).symm⟩

theorem IsInteger.reflected (h : t.IsInteger) : t.reflected.IsInteger := by
  rcases h.reflected_cases with ⟨-, same⟩ | ⟨-, same⟩ <;> rw [same]
  · exact h.negated
  · exact h

end Term

namespace Member

variable {f : Term → Term} (sign : Power → ℤ)

/-- Multiplying each term by a number for its power multiplies the coefficients of the power. -/
theorem coefficientsOf_map (h : ∀ t ∈ p.terms, t.IsMultiple (f t) (sign t.power)) (w : Power) :
    coefficientsOf ⟨p.terms.map f⟩ w = (p.coefficientsOf w).map (sign w * ·) := by
  have alike : p.terms.filter ((fun t => decide (t.power = w)) ∘ f) = p.terms.filter fun t => t.power = w :=
    List.filter_congr fun t ht => by rw [Function.comp_apply, (h t ht).power]
  rw [coefficientsOf, coefficientsOf, List.filter_map, alike, List.map_map, List.map_map]
  refine List.map_congr_left fun t ht => ?_
  obtain ⟨ht, power⟩ := List.mem_filter.mp ht
  rw [Function.comp_apply, Function.comp_apply, (h t ht).coefficient, of_decide_eq_true power]

theorem sumOf_map (h : ∀ t ∈ p.terms, t.IsMultiple (f t) (sign t.power)) (w : Power) :
    sumOf ⟨p.terms.map f⟩ w = sign w * p.sumOf w := by
  rw [sumOf, coefficientsOf_map sign h, List.sum_map_mul_left, List.map_id', sumOf]

theorem IsInteger.map (hp : p.IsInteger) (integer : ∀ t ∈ p.terms, (f t).IsInteger)
    (h : ∀ t ∈ p.terms, t.IsMultiple (f t) (sign t.power)) (unit : ∀ w, |sign w| = 1) :
    IsInteger ⟨p.terms.map f⟩ where
  terms := List.forall_mem_map.mpr integer
  sums w s hs := by
    rw [coefficientsOf_map sign h, List.prefix_map_iff] at hs
    obtain ⟨r, hr, rfl⟩ := hs
    rw [List.sum_map_mul_left, List.map_id', abs_mul, unit, one_mul]
    exact hp.sums w r hr

theorem IsInteger.negated (h : p.IsInteger) : p.negated.IsInteger ∧ ∀ w, p.negated.sumOf w = -p.sumOf w := by
  have multiples := fun t ht => (h.terms t ht).isMultiple_negated
  refine ⟨h.map (fun _ => -1) (fun t ht => (h.terms t ht).negated) multiples fun _ => rfl, fun w => ?_⟩
  rw [Member.negated, sumOf_map (fun _ => -1) multiples, neg_one_mul]

theorem IsInteger.reflected (h : p.IsInteger) :
    p.reflected.IsInteger ∧ ∀ w, p.reflected.sumOf w = w.reflection * p.sumOf w := by
  have multiples := fun t ht => (h.terms t ht).isMultiple_reflected
  have unit : ∀ w : Power, |w.reflection| = 1 := fun _ => by simp [Power.reflection]
  exact ⟨h.map Power.reflection (fun t ht => (h.terms t ht).reflected) multiples unit,
    sumOf_map Power.reflection multiples⟩

theorem IsInteger.allExponentsWhole (h : ∀ t ∈ p.terms, t.IsInteger) : allExponentsWhole p.terms = .ok true := by
  obtain ⟨ts⟩ := p
  induction ts with
  | nil => rfl
  | cons t rest ih =>
    obtain ⟨own, others⟩ := List.forall_mem_cons.mp h
    have whole : t.exponent.toRat? = some (((t.natExponent : ℕ) : ℤ) : ℚ) := own.toRat?_exponent
    rw [FunctionStudy.allExponentsWhole, Binary64.toInt_intCast whole, Binary64.isIntegral_intCast whole]
    exact ih others

end Member

end Signs

section Letters

/-- The polynomial with every letter negated. -/
noncomputable def reflectLetters (P : MvPolynomial String ℤ) : MvPolynomial String ℤ := aeval (fun l => -X l) P

theorem Term.IsMultiple.toMvPolynomial_eq {u : Term} {sign : ℤ} (h : t.IsMultiple u sign) :
    u.toMvPolynomial = C sign * t.toMvPolynomial := by
  rw [Term.toMvPolynomial_eq, Term.toMvPolynomial_eq, MvPolynomial.C_mul_monomial, h.power, h.coefficient]

theorem Term.reflectLetters_toMvPolynomial (t : Term) :
    reflectLetters t.toMvPolynomial = C t.power.reflection * t.toMvPolynomial := by
  rw [Power.reflection, exponent_power]
  obtain ⟨c, literal⟩ := t
  cases literal with
  | none =>
    have constant : natExponent ⟨c, none⟩ = 0 := rfl
    simp [reflectLetters, Term.toMvPolynomial, constant]
  | some l =>
    simp only [reflectLetters, Term.toMvPolynomial, Option.elim_some, map_mul, map_pow, MvPolynomial.aeval_X]
    rw [neg_pow]
    simp
    ring

namespace Member

theorem IsInteger.toMvPolynomial_negated (h : p.IsInteger) : p.negated.toMvPolynomial = -p.toMvPolynomial := by
  have terms : p.negated.terms.map Term.toMvPolynomial = (p.terms.map Term.toMvPolynomial).map (C (-1) * ·) := by
    rw [Member.negated, List.map_map, List.map_map]
    exact List.map_congr_left fun t ht => (h.terms t ht).isMultiple_negated.toMvPolynomial_eq
  rw [toMvPolynomial, terms, List.sum_map_mul_left, List.map_id', ← toMvPolynomial, map_neg, map_one, neg_one_mul]

theorem IsInteger.toMvPolynomial_reflected (h : p.IsInteger) :
    p.reflected.toMvPolynomial = reflectLetters p.toMvPolynomial := by
  have terms : p.reflected.terms.map Term.toMvPolynomial =
      (p.terms.map Term.toMvPolynomial).map reflectLetters := by
    rw [Member.reflected, List.map_map, List.map_map]
    refine List.map_congr_left fun t ht => ?_
    exact (h.terms t ht).isMultiple_reflected.toMvPolynomial_eq.trans t.reflectLetters_toMvPolynomial.symm
  rw [toMvPolynomial, terms, reflectLetters, toMvPolynomial, map_list_sum]
  rfl

end Member

end Letters

section Parity

theorem Power.reflection_mul_eq_self_iff (w : Power) (s : ℤ) :
    w.reflection * s = s ↔ Odd w.exponent → s = 0 := by
  rcases Nat.even_or_odd w.exponent with even | odd
  · simp [reflection, even.neg_one_pow, even]
  · rw [reflection, odd.neg_one_pow]
    simp only [odd, true_imp_iff]
    omega

theorem Power.reflection_mul_eq_neg_iff (w : Power) (s : ℤ) :
    w.reflection * s = -s ↔ Even w.exponent → s = 0 := by
  rcases Nat.even_or_odd w.exponent with even | odd
  · rw [reflection, even.neg_one_pow]
    simp only [even, true_imp_iff]
    omega
  · simp [reflection, odd.neg_one_pow, odd]

theorem Member.forall_odd_iff (p : Member) : (∀ w : Power, Odd w.exponent → p.sumOf w = 0) ↔
    ∀ letter k, Odd k → p.sumOf (some (letter, k)) = 0 := by
  refine ⟨fun sums letter k => sums (some (letter, k)), fun sums w odd => ?_⟩
  rcases w with _ | ⟨letter, k⟩
  · cases Nat.not_odd_zero odd
  · exact sums letter k odd

theorem Member.forall_even_iff (p : Member) : (∀ w : Power, Even w.exponent → p.sumOf w = 0) ↔
    p.sumOf none = 0 ∧ ∀ letter k, 2 ≤ k → Even k → p.sumOf (some (letter, k)) = 0 := by
  refine ⟨fun sums => ⟨sums none Even.zero, fun letter k _ => sums (some (letter, k))⟩, fun sums w even => ?_⟩
  rcases w with _ | ⟨letter, k⟩
  · exact sums.1
  · rcases Nat.eq_zero_or_pos k with rfl | positive
    · exact sumOf_eq_zero_of_not_isProper fun proper => proper rfl
    · obtain ⟨j, rfl⟩ : Even k := even
      exact sums.2 letter (j + j) (by omega) ⟨j, rfl⟩

/-- The function is even exactly if negating the letters gives it again, which is where the coefficients of each
odd power add up to 0. It is odd exactly if negating them gives its opposite, which is where those of each even
power do, the constants with them. It is both for the zero polynomial only. -/
theorem parity_decided {f : Equation} (hp : f.polynomial = .ok p) (h : p.IsInteger) :
    (parity f).Returns fun r =>
      (r.isEven = true ↔ ∀ letter k, Odd k → p.sumOf (some (letter, k)) = 0) ∧
      (r.isOdd = true ↔ p.sumOf none = 0 ∧ ∀ letter k, 2 ≤ k → Even k → p.sumOf (some (letter, k)) = 0) ∧
      (r.isEven = true ∧ r.isOdd = true ↔ p.toMvPolynomial = 0) ∧
      (r.isEven = true ↔ reflectLetters p.toMvPolynomial = p.toMvPolynomial) ∧
      (r.isOdd = true ↔ reflectLetters p.toMvPolynomial = -p.toMvPolynomial) := by
  obtain ⟨integer, reflected⟩ := h.reflected
  obtain ⟨integer', negated⟩ := h.negated
  have even := integer.sameCanonical_iff_toMvPolynomial h
  have odd := integer.sameCanonical_iff_toMvPolynomial integer'
  have evenSums := even.trans Member.toMvPolynomial_inj
  have oddSums := odd.trans Member.toMvPolynomial_inj
  simp only [reflected, Power.reflection_mul_eq_self_iff] at evenSums
  simp only [reflected, negated, Power.reflection_mul_eq_neg_iff] at oddSums
  rw [h.toMvPolynomial_reflected] at even odd
  rw [h.toMvPolynomial_negated] at odd
  have zero : p.toMvPolynomial = 0 ↔ ∀ w, p.sumOf w = 0 := p.toMvPolynomial_inj (q := ⟨[]⟩)
  have result : f.polynomial >>= parityOf = .ok
      { function := p.text, opposite := p.negated.text, reflected := p.reflected.text
        isEven := p.reflected.sameCanonical p, isOdd := p.reflected.sameCanonical p.negated } := by
    rw [hp]
    simp [parityOf, Member.IsInteger.allExponentsWhole h.terms, bind, Except.bind, pure, Except.pure]
  refine Work.Returns.ofExcept_bind result (Work.Returns.record_bind (Work.Returns.pure ⟨?_, ?_, ?_, even, odd⟩))
  · exact evenSums.trans p.forall_odd_iff
  · exact oddSums.trans p.forall_even_iff
  · rw [evenSums, oddSums, zero]
    exact ⟨fun both w => (Nat.even_or_odd w.exponent).elim (both.2 w) (both.1 w),
      fun sums => ⟨fun w _ => sums w, fun w _ => sums w⟩⟩

/-- A cancelling square, constants of sum 0 with and without a letter, and odd powers of two letters. -/
theorem parity_decided_odd : ∃ f p, Equation.parse "y=t^2+x-1+2x^3-t^2-4t^5+x^0" = .ok f ∧ f.polynomial = .ok p ∧
    p.IsInteger ∧ (parity f).Returns fun r => r.isOdd = true ∧ r.isEven = false := by
  let power : Char → ℤ → ℕ → Term := fun l c k =>
    ⟨.ofInt c, some { letter := String.singleton l, exponent := .ofInt k }⟩
  let p : Member := ⟨[power 't' 1 2, power 'x' 1 1, .constant (.ofInt (-1)), power 'x' 2 3, power 't' (-1) 2,
    power 't' (-4) 5, power 'x' 1 0]⟩
  let f : Equation := ⟨⟨[power 'y' 1 1]⟩, p⟩
  have read : Equation.parse "y=t^2+x-1+2x^3-t^2-4t^5+x^0" = .ok f := by decide +kernel
  have polynomial : f.polynomial = .ok p := by decide +kernel
  have integer : p.IsInteger := .of_isIntegral (by decide +kernel) (by decide +kernel)
  refine ⟨f, p, read, polynomial, integer, (parity_decided polynomial integer).imp fun r ⟨even, odd, _⟩ => ?_⟩
  have sums : ∀ t ∈ p.terms, Even t.power.exponent → p.sumOf t.power = 0 := by decide +kernel
  have cubes : p.sumOf (some ("x", 3)) ≠ 0 := by decide +kernel
  refine ⟨odd.mpr ⟨by decide +kernel, fun letter k _ whole => ?_⟩, ?_⟩
  · by_contra some
    obtain ⟨t, ht, same⟩ := Member.exists_power_of_sumOf some
    exact some (same ▸ sums t ht (same ▸ whole))
  · exact Bool.eq_false_iff.mpr fun holds => cubes (even.mp holds "x" 3 (by decide))

end Parity

end FunctionStudy
