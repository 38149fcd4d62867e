import Mathlib.Algebra.Polynomial.Basic
import Mathlib.Algebra.Polynomial.Coeff
import Mathlib.Algebra.Polynomial.Degree.Lemmas
import FunctionStudy.Member
import FunctionStudy.Proofs.Member.Printing

/-! Members that are integer polynomials. The terms have integer coefficients and natural exponents
of one letter, and adding like terms in their order never leaves the integers up to `2^53`. -/

namespace FunctionStudy

open Polynomial (monomial)

/-- The doubles of the coefficients of a polynomial, from an exponent down to 0. -/
noncomputable def denseTo (P : Polynomial ℤ) (d : ℕ) : List Binary64 :=
  (List.range (d + 1)).reverse.map fun k => .ofInt (P.coeff k)

/-- Coefficients that doubles hold exactly. -/
def HasSmallCoefficients (P : Polynomial ℤ) : Prop := ∀ k, |P.coeff k| ≤ 2 ^ 53

namespace Term

def intCoefficient (t : Term) : ℤ := t.coefficient.toRat.num

def natExponent (t : Term) : ℕ := t.exponent.toRat.num.toNat

theorem natExponent_eq {t : Term} {k : ℕ} (h : t.exponent.toRat? = some (k : ℚ)) : t.natExponent = k := by
  rw [natExponent, Binary64.toRat_eq h, Rat.num_natCast, Int.toNat_natCast]

theorem natExponent_eq_zero_of_none {t : Term} (none : t.literal = none) : t.natExponent = 0 :=
  natExponent_eq (by rw [exponent, none, Option.map_none, Option.getD_none, Binary64.toRat?_zero, Nat.cast_zero])

/-- An integer coefficient and a natural exponent of the letter, which is no label. -/
structure IsIntegerIn (l : Char) (t : Term) : Prop where
  coefficient : ∃ z : ℤ, t.coefficient.toRat? = some (z : ℚ)
  literal : ∀ m ∈ t.literal, m.letter = String.singleton l ∧ m.isLabel = false ∧
    ∃ k : ℕ, m.exponent.toRat? = some (k : ℚ)

variable {l : Char} {t : Term}

theorem IsIntegerIn.toRat?_coefficient (h : t.IsIntegerIn l) :
    t.coefficient.toRat? = some (t.intCoefficient : ℚ) := by
  obtain ⟨z, hz⟩ := h.coefficient
  rw [hz, intCoefficient, Binary64.toRat_eq hz, Rat.num_intCast]

theorem IsIntegerIn.toRat?_exponent (h : t.IsIntegerIn l) :
    t.exponent.toRat? = some (t.natExponent : ℚ) := by
  have natural : ∃ k : ℕ, t.exponent.toRat? = some (k : ℚ) := by
    unfold exponent
    cases hm : t.literal with
    | none => exact ⟨0, by simp⟩
    | some m => exact (h.literal m hm).2.2
  obtain ⟨k, hk⟩ := natural
  rw [hk, natExponent_eq hk]

end Term

namespace Member

def likeCoefficients (p : Member) (k : ℕ) : List ℤ :=
  (p.terms.filter fun t => t.natExponent = k).map Term.intCoefficient

/-- The polynomial that the terms add up to. -/
noncomputable def toPolynomial (p : Member) : Polynomial ℤ :=
  (p.terms.map fun t => monomial t.natExponent t.intCoefficient).sum

/-- The largest exponent that is written. -/
def writtenDegree (p : Member) : ℕ := (p.terms.map Term.natExponent).foldl max 0

structure IsIntegerIn (l : Char) (p : Member) : Prop where
  terms : ∀ t ∈ p.terms, t.IsIntegerIn l
  /-- Adding like terms stays among the integers that doubles hold exactly. -/
  sums : ∀ k s, s <+: p.likeCoefficients k → |s.sum| ≤ 2 ^ 53

theorem coeff_toPolynomial (p : Member) (k : ℕ) :
    p.toPolynomial.coeff k = (p.likeCoefficients k).sum := by
  unfold toPolynomial likeCoefficients
  induction p.terms with
  | nil => simp
  | cons t rest ih =>
    rw [List.map_cons, List.sum_cons, Polynomial.coeff_add, Polynomial.coeff_monomial, ih]
    by_cases same : t.natExponent = k <;> simp [same]

theorem le_foldl_max (ks : List ℕ) (k : ℕ) :
    k ≤ ks.foldl max k ∧ ∀ j ∈ ks, j ≤ ks.foldl max k := by
  induction ks generalizing k with
  | nil => simp
  | cons i ks ih =>
    obtain ⟨start, others⟩ := ih (max k i)
    refine ⟨(le_max_left k i).trans start, fun j hj => ?_⟩
    rcases List.mem_cons.mp hj with rfl | hj
    · exact (le_max_right k j).trans start
    · exact others j hj

theorem foldl_max_le {ks : List ℕ} {k n : ℕ} (start : k ≤ n) (h : ∀ j ∈ ks, j ≤ n) :
    ks.foldl max k ≤ n := by
  induction ks generalizing k with
  | nil => exact start
  | cons i ks ih =>
    exact ih (max_le start (h i (by simp))) fun j hj => h j (by simp [hj])

theorem natExponent_le_writtenDegree {p : Member} {t : Term} (h : t ∈ p.terms) :
    t.natExponent ≤ p.writtenDegree :=
  (le_foldl_max _ 0).2 _ (List.mem_map_of_mem h)

theorem exists_natExponent_of_coeff {p : Member} {k : ℕ} (h : p.toPolynomial.coeff k ≠ 0) :
    ∃ t ∈ p.terms, t.natExponent = k := by
  by_contra none
  apply h
  have empty : p.likeCoefficients k = [] := by
    rw [likeCoefficients, List.map_eq_nil_iff, List.filter_eq_nil_iff]
    intro t ht same
    exact none ⟨t, ht, by simpa using same⟩
  rw [coeff_toPolynomial, empty, List.sum_nil]

theorem natDegree_le_writtenDegree (p : Member) : p.toPolynomial.natDegree ≤ p.writtenDegree := by
  rw [Polynomial.natDegree_le_iff_coeff_eq_zero]
  intro k above
  by_contra nonzero
  obtain ⟨t, ht, rfl⟩ := exists_natExponent_of_coeff nonzero
  exact absurd (natExponent_le_writtenDegree ht) (not_le.mpr above)

theorem sum_ofInt {xs : List Binary64} {zs : List ℤ}
    (values : List.Forall₂ (fun x z => x.toRat? = some ((z : ℤ) : ℚ)) xs zs)
    (small : ∀ s, s <+: zs → |s.sum| ≤ 2 ^ 53) : Binary64.sum xs = .ofInt zs.sum := by
  suffices ∀ (start : ℤ), (∀ s, s <+: zs → |start + s.sum| ≤ 2 ^ 53) →
      xs.foldl Binary64.add (.ofInt start) = .ofInt (start + zs.sum) by
    rw [Binary64.sum, ← Binary64.ofInt_zero, this 0 (by simpa using small), zero_add]
  clear small
  induction values with
  | nil => intro start _; simp
  | @cons x z xs zs hx _ ih =>
    intro start small
    have first := small [] List.nil_prefix
    rw [List.foldl_cons, Binary64.add_ofInt (by simpa using first) hx, ih, List.sum_cons, add_assoc]
    intro s hs
    have next := small (z :: s) (List.cons_prefix_cons.mpr ⟨rfl, hs⟩)
    rwa [List.sum_cons, ← add_assoc] at next

section Coefficients

variable {l : Char} {p : Member}

theorem toRat?_foldl_max (ms : List Literal) {d : Binary64} {k : ℕ} (hd : d.toRat? = some (k : ℚ))
    (natural : ∀ m ∈ ms, ∃ j : ℕ, m.exponent.toRat? = some (j : ℚ)) :
    (ms.foldl (fun d m => d.max m.exponent) d).toRat? =
      some (((ms.map fun m => m.exponent.toRat.num.toNat).foldl max k : ℕ) : ℚ) := by
  induction ms generalizing d k with
  | nil => exact hd
  | cons m rest ih =>
    obtain ⟨j, hj⟩ := natural m (by simp)
    have value : m.exponent.toRat.num.toNat = j := by simp [Binary64.toRat_eq hj]
    have larger := Binary64.toRat?_max hd hj
    rw [← Nat.cast_max] at larger
    rw [List.foldl_cons, List.map_cons, List.foldl_cons, value]
    exact ih larger fun n hn => natural n (by simp [hn])

/-- Terms without literal part count as exponent 0. -/
theorem writtenDegree_eq (p : Member) :
    p.writtenDegree =
      ((p.terms.filterMap (·.literal)).map fun m => m.exponent.toRat.num.toNat).foldl max 0 := by
  unfold writtenDegree
  generalize 0 = k
  induction p.terms generalizing k with
  | nil => rfl
  | cons t rest ih =>
    cases hm : t.literal with
    | none =>
      have zero : t.natExponent = 0 := by
        simp [Term.natExponent, Term.exponent, hm, Binary64.toRat_eq Binary64.toRat?_zero]
      simp [hm, zero, ih]
    | some m =>
      have same : t.natExponent = m.exponent.toRat.num.toNat := by
        simp [Term.natExponent, Term.exponent, hm]
      simp [hm, same, ih]

/-- Every exponent is a natural number. -/
def HasNaturalExponents (p : Member) : Prop :=
  ∀ t ∈ p.terms, t.exponent.toRat? = some (t.natExponent : ℚ)

theorem IsIntegerIn.hasNaturalExponents (h : p.IsIntegerIn l) : p.HasNaturalExponents :=
  fun t ht => (h.terms t ht).toRat?_exponent

theorem HasNaturalExponents.toRat?_degree (h : p.HasNaturalExponents) :
    p.degree.toRat? = some (p.writtenDegree : ℚ) := by
  have natural : ∀ m ∈ p.terms.filterMap (·.literal), ∃ k : ℕ, m.exponent.toRat? = some (k : ℚ) := by
    intro m hm
    obtain ⟨t, ht, hm⟩ := List.mem_filterMap.mp hm
    have value := h t ht
    rw [Term.exponent, hm] at value
    exact ⟨_, value⟩
  rw [writtenDegree_eq, degree]
  cases hl : p.terms.filterMap (·.literal) with
  | nil => simp
  | cons m rest =>
    rw [hl] at natural
    obtain ⟨k, hk⟩ := natural m (by simp)
    have value : m.exponent.toRat.num.toNat = k := by simp [Binary64.toRat_eq hk]
    rw [List.map_cons, List.foldl_cons, value, Nat.zero_max]
    exact toRat?_foldl_max rest hk fun n hn => natural n (by simp [hn])

theorem IsIntegerIn.toRat?_degree (h : p.IsIntegerIn l) :
    p.degree.toRat? = some (p.writtenDegree : ℚ) :=
  h.hasNaturalExponents.toRat?_degree

theorem HasNaturalExponents.naturalExponents (h : p.HasNaturalExponents) :
    p.naturalExponents = .ok (p.terms.map fun t => (t.natExponent, t)) := by
  refine mapM_eq_ok fun t ht => ?_
  have value := h t ht
  have nonneg : t.exponent.lt .zero = false := by
    rw [← Bool.not_eq_true, Binary64.lt_iff value Binary64.toRat?_zero]
    exact not_lt.mpr (Nat.cast_nonneg _)
  have integer : t.exponent.toRat? = some (((t.natExponent : ℕ) : ℤ) : ℚ) := by exact_mod_cast value
  have whole := Binary64.toInt_intCast integer
  have integral := Binary64.isIntegral_intCast integer
  simp [nonneg, whole, integral, bind, Except.bind, pure, Except.pure]

theorem HasNaturalExponents.of_naturalExponents {ns : List (ℕ × Term)} (h : p.naturalExponents = .ok ns) :
    p.HasNaturalExponents := by
  intro t ht
  obtain ⟨n, step⟩ := exists_eq_ok_of_mapM h ht
  dsimp only at step
  split at step
  · cases step
  rename_i nonneg
  cases number : t.exponent.toInt with
  | error e =>
    rw [number] at step
    cases step
  | ok z =>
    rw [number] at step
    dsimp only [bind, Except.bind] at step
    split at step
    · cases step
    rename_i integral
    obtain ⟨k, hk⟩ := Binary64.exists_natCast nonneg (by simpa using integral)
    rw [hk, Term.natExponent_eq hk]

theorem HasNaturalExponents.of_coefficientsTo {cs : List Binary64} {d : ℤ} (h : p.coefficientsTo d = .ok cs) :
    p.HasNaturalExponents := by
  unfold Member.coefficientsTo at h
  cases natural : p.naturalExponents with
  | error e =>
    rw [natural] at h
    cases h
  | ok ns => exact of_naturalExponents natural

theorem HasNaturalExponents.of_coefficients {cs : List Binary64} (h : p.coefficients = .ok cs) :
    p.HasNaturalExponents := by
  unfold Member.coefficients at h
  cases natural : p.naturalExponents with
  | error e =>
    rw [natural] at h
    cases h
  | ok ns => exact of_naturalExponents natural

theorem IsIntegerIn.sum_like (h : p.IsIntegerIn l) (k : ℕ) :
    Binary64.sum ((p.terms.filter fun t => t.natExponent = k).map Term.coefficient) =
      .ofInt (p.toPolynomial.coeff k) := by
  rw [coeff_toPolynomial]
  refine sum_ofInt ?_ (h.sums k)
  rw [likeCoefficients, List.forall₂_map_left_iff, List.forall₂_map_right_iff, List.forall₂_same]
  intro t ht
  exact (h.terms t (List.mem_filter.mp ht).1).toRat?_coefficient

theorem IsIntegerIn.hasSmallCoefficients (h : p.IsIntegerIn l) :
    HasSmallCoefficients p.toPolynomial := by
  intro k
  rw [coeff_toPolynomial]
  exact h.sums k _ List.prefix_rfl

theorem HasNaturalExponents.coefficientsTo (h : p.HasNaturalExponents) {d : ℕ}
    (hd : p.writtenDegree ≤ d) : p.coefficientsTo d = .ok ((List.range (d + 1)).reverse.map fun k =>
      Binary64.sum ((p.terms.filter fun t => t.natExponent = k).map Term.coefficient)) := by
  have below : ∀ e : ℕ × Term, e ∈ (p.terms.map fun t => (t.natExponent, t)) →
      ¬ decide ((d : ℤ) < e.1) = true := by
    intro e he
    obtain ⟨t, ht, rfl⟩ := List.mem_map.mp he
    have := natExponent_le_writtenDegree ht
    simp
    omega
  have size : ((d : ℤ) + 1).toNat = d + 1 := by omega
  rw [Member.coefficientsTo, h.naturalExponents]
  simp only [bind, Except.bind, List.find?_eq_none.mpr below, pure, Except.pure, size]
  congr 1
  refine List.map_congr_left fun k _ => ?_
  rw [List.filter_map, List.map_map]
  rfl

theorem HasNaturalExponents.coefficients (h : p.HasNaturalExponents) :
    p.coefficients = p.coefficientsTo p.writtenDegree := by
  have degree : p.degree.toInt = .ok (p.writtenDegree : ℤ) :=
    Binary64.toInt_intCast (by exact_mod_cast h.toRat?_degree)
  rw [Member.coefficients, h.naturalExponents, degree]
  rfl

theorem IsIntegerIn.coefficientsTo (h : p.IsIntegerIn l) {d : ℕ} (hd : p.writtenDegree ≤ d) :
    p.coefficientsTo d = .ok (denseTo p.toPolynomial d) := by
  rw [h.hasNaturalExponents.coefficientsTo hd, denseTo]
  exact congrArg _ (List.map_congr_left fun k _ => h.sum_like k)

theorem IsIntegerIn.coefficients (h : p.IsIntegerIn l) :
    p.coefficients = .ok (denseTo p.toPolynomial p.writtenDegree) := by
  rw [h.hasNaturalExponents.coefficients, h.coefficientsTo le_rfl]

end Coefficients

end Member
end FunctionStudy
