import FunctionStudy.Proofs.Binary64.RelativeError
import FunctionStudy.Proofs.Equation

/-! Members in one letter: natural powers with any doubles as coefficients. Collecting and sorting
keep the sum of each exponent, added up in doubles in the order in which it is written. -/

namespace FunctionStudy

open Term (literalOf)
open Member (keyOf groupsOf groupWith)

variable {l : Char} {k : ℕ}

section Sums

namespace Binary64

variable {x y : Binary64}

theorem zero_add_of_ne_negZero (h : x ≠ .negZero) : zero.add x = x := by
  cases x with
  | nan => rfl
  | inf s => rfl
  | negZero => exact absurd rfl h
  | finite v grid =>
    have value : (finite v grid).toRat? = some v := rfl
    rw [add_eq_round toRat?_zero value (.inr h), zero_add, round_of_onGrid grid]

theorem unsignedZero_eq_self (h : x ≠ .negZero) : x.unsignedZero = x := by
  cases x with
  | nan => rfl
  | inf s => rfl
  | negZero => exact absurd rfl h
  | finite v grid => rw [unsignedZero_eq rfl, round_of_onGrid grid]

theorem zero_add_of_isZero_eq_false (h : x.isZero = false) : zero.add x = x :=
  zero_add_of_ne_negZero fun negative => by
    rw [negative] at h
    cases h

theorem eq_zero_of_isZero (h : x.isZero = true) (sign : x ≠ .negZero) : x = zero := by
  cases x with
  | nan => cases h
  | inf s => cases h
  | negZero => exact absurd rfl sign
  | finite v grid =>
    obtain rfl : v = 0 := by simpa [isZero, toRat?] using h
    rfl

theorem add_negZero (h : x ≠ .negZero) : x.add .negZero = x := by
  cases x with
  | nan => rfl
  | inf s => rfl
  | negZero => exact absurd rfl h
  | finite v grid =>
    have value : (finite v grid).toRat? = some v := rfl
    rw [add_eq_round value (rfl : toRat? .negZero = some 0) (.inl h), add_zero, round_of_onGrid grid]

end Binary64

end Sums

namespace Term

/-- A natural power of the letter, which is no label. -/
def IsPowerOf (l : Char) (t : Term) : Prop :=
  ∀ m ∈ t.literal, m.letter = String.singleton l ∧ m.isLabel = false ∧
    ∃ k : ℕ, m.exponent.toRat? = some (k : ℚ)

/-- The coefficient does not matter for what like terms share. -/
def withZero (t : Term) : Term := { t with coefficient := .zero }

variable {t : Term}

theorem IsPowerOf.isIntegerIn (h : t.IsPowerOf l) : t.withZero.IsIntegerIn l :=
  ⟨⟨0, by simp [withZero]⟩, h⟩

theorem IsPowerOf.toRat?_exponent (h : t.IsPowerOf l) : t.exponent.toRat? = some (t.natExponent : ℚ) :=
  h.isIntegerIn.toRat?_exponent

theorem natExponent_withZero (t : Term) : t.withZero.natExponent = t.natExponent := rfl

theorem IsPowerOf.isDouble (h : t.IsPowerOf l) : IsDouble t.natExponent := by
  rw [← natExponent_withZero]
  exact Member.isDouble_natExponent h.isIntegerIn

theorem IsPowerOf.key_eq (h : t.IsPowerOf l) : t.key = keyOf l t.natExponent := by
  rw [← natExponent_withZero, ← Member.key_eq h.isIntegerIn]
  rfl

theorem IsPowerOf.isDependent_eq_false (h : t.IsPowerOf l) (hl : l ≠ 'y') : t.isDependent = false :=
  h.isIntegerIn.isDependent_eq_false hl

theorem isPowerOf_constant (l : Char) (c : Binary64) : (constant c).IsPowerOf l :=
  fun _ hm => absurd hm (Option.not_mem_none _)

theorem isPowerOf_literalOf (hk : IsDouble k) (c : Binary64) : (Term.mk c (literalOf l k)).IsPowerOf l := by
  have zero : (Binary64.ofInt 0).toRat? = some ((0 : ℤ) : ℚ) := Binary64.toRat?_ofInt (by norm_num)
  exact (isIntegerIn_literalOf zero hk).literal

theorem natExponent_literalOf (hk : IsDouble k) (c : Binary64) :
    (Term.mk c (literalOf l k)).natExponent = k := by
  rw [← ofPower_eq]
  exact natExponent_ofPower hk c

end Term

namespace Member

/-- The sum of the coefficients of an exponent, in the order of the terms. -/
def likeSum (p : Member) (k : ℕ) : Binary64 :=
  Binary64.sum ((p.terms.filter fun t => t.natExponent = k).map Term.coefficient)

def IsIn (l : Char) (p : Member) : Prop := ∀ t ∈ p.terms, t.IsPowerOf l

variable {p : Member}

theorem likeSum_ne_negZero (p : Member) (k : ℕ) : p.likeSum k ≠ .negZero := Binary64.sum_ne_negZero _

theorem IsIn.hasNaturalExponents (h : p.IsIn l) : p.HasNaturalExponents :=
  fun t ht => (h t ht).toRat?_exponent

theorem IsIn.normalize (h : p.IsIn l) : p.normalize.IsIn l :=
  fun t ht => h t (List.mem_mergeSort.mp ht)

theorem HasNaturalExponents.likeSum_normalize (h : p.HasNaturalExponents) (k : ℕ) :
    p.normalize.likeSum k = p.likeSum k := by
  rw [likeSum, likeSum, h.normalize_terms, filter_mergeSort]

theorem IsIn.likeSum_normalize (h : p.IsIn l) (k : ℕ) : p.normalize.likeSum k = p.likeSum k :=
  h.hasNaturalExponents.likeSum_normalize k

theorem exists_natExponent_of_likeSum (h : (p.likeSum k).isZero = false) :
    ∃ t ∈ p.terms, t.natExponent = k := by
  by_contra none
  have empty : p.terms.filter (fun t => t.natExponent = k) = [] := by
    rw [List.filter_eq_nil_iff]
    intro t ht same
    exact none ⟨t, ht, by simpa using same⟩
  rw [likeSum, empty] at h
  exact absurd h (by decide)

theorem IsIn.exists_simplify_terms (h : p.IsIn l) :
    ∃ ks : List ℕ, ks.Nodup ∧ (∀ k, k ∈ ks ↔ (p.likeSum k).isZero = false) ∧
      (∀ k ∈ ks, IsDouble k) ∧ p.simplify.terms = ks.map fun k => ⟨p.likeSum k, literalOf l k⟩ := by
  have zeros : ∀ t ∈ p.terms.map Term.withZero, t.IsIntegerIn l := by
    intro t ht
    obtain ⟨u, hu, rfl⟩ := List.mem_map.mp ht
    exact (h u hu).isIntegerIn
  obtain ⟨ks, nodup, exponents, groups⟩ := exists_groups (p := ⟨p.terms.map Term.withZero⟩) zeros
  have same : Member.groups ⟨p.terms.map Term.withZero⟩ = p.groups := by
    rw [groups_eq, groups_eq, List.foldl_map]
    rfl
  have written : ∀ k, k ∈ ks ↔ ∃ t ∈ p.terms, t.natExponent = k := by
    intro k
    rw [exponents]
    simp only [List.mem_map, exists_exists_and_eq_and]
    rfl
  have double : ∀ k ∈ ks, IsDouble k := by
    intro k hk
    obtain ⟨t, ht, rfl⟩ := (written k).mp hk
    exact (h t ht).isDouble
  have sums : ∀ k ∈ ks, p.coefficientSum (keyOf l k) = p.likeSum k := by
    intro k hk
    rw [coefficientSum, likeSum]
    congr 2
    refine List.filter_congr fun t ht => ?_
    rw [Bool.eq_iff_iff, beq_iff_eq, decide_eq_true_iff, (h t ht).key_eq]
    exact ⟨keyOf_injective (h t ht).isDouble (double k hk), fun e => by rw [e]⟩
  refine ⟨ks.filter fun k => !(p.likeSum k).isZero, nodup.filter _, fun k => ?_,
    fun k hk => double k (List.mem_of_mem_filter hk), ?_⟩
  · simp only [List.mem_filter, Bool.not_eq_true', written, and_iff_right_iff_imp]
    exact exists_natExponent_of_likeSum
  · have terms : ∀ k ∈ ks, Term.mk (p.coefficientSum (keyOf l k)) (literalOf l k) =
        ⟨p.likeSum k, literalOf l k⟩ := by
      intro k hk
      rw [sums k hk]
    rw [simplify, ← same, groups, List.map_map]
    refine (congrArg (List.filter _) (List.map_congr_left terms)).trans ?_
    rw [List.filter_map]
    rfl

theorem IsIn.simplify (h : p.IsIn l) : p.simplify.IsIn l := by
  obtain ⟨ks, -, -, double, terms⟩ := h.exists_simplify_terms
  intro t ht
  rw [terms, List.mem_map] at ht
  obtain ⟨k, hk, rfl⟩ := ht
  exact Term.isPowerOf_literalOf (double k hk) _

theorem IsIn.likeSum_simplify (h : p.IsIn l) (k : ℕ) : p.simplify.likeSum k = p.likeSum k := by
  obtain ⟨ks, nodup, kept, double, terms⟩ := h.exists_simplify_terms
  have own : p.simplify.terms.filter (fun t => t.natExponent = k) =
      if k ∈ ks then [⟨p.likeSum k, literalOf l k⟩] else [] := by
    have same : ks.filter ((fun t : Term => decide (t.natExponent = k)) ∘
        fun j => ⟨p.likeSum j, literalOf l j⟩) = ks.filter fun j => decide (j = k) :=
      List.filter_congr fun j hj => by
        rw [Function.comp_apply, Term.natExponent_literalOf (double j hj)]
    rw [terms, List.filter_map, same, List.filter_eq, nodup.count]
    split_ifs <;> simp
  rw [likeSum, own]
  split_ifs with member
  · exact Binary64.zero_add_of_ne_negZero (p.likeSum_ne_negZero k)
  · have vanishes : (p.likeSum k).isZero = true := by
      rw [← Bool.not_eq_false, ← kept]
      exact member
    exact (Binary64.eq_zero_of_isZero vanishes (p.likeSum_ne_negZero k)).symm

theorem IsIn.mem_simplify (h : p.IsIn l) {t : Term} (ht : t ∈ p.simplify.terms) :
    (p.likeSum t.natExponent).isZero = false := by
  obtain ⟨ks, -, kept, double, terms⟩ := h.exists_simplify_terms
  rw [terms, List.mem_map] at ht
  obtain ⟨k, hk, rfl⟩ := ht
  rw [Term.natExponent_literalOf (double k hk)]
  exact (kept k).mp hk

theorem writtenDegree_le_iff {d : ℕ} : p.writtenDegree ≤ d ↔ ∀ t ∈ p.terms, t.natExponent ≤ d :=
  ⟨fun h _ ht => (natExponent_le_writtenDegree ht).trans h, fun h =>
    foldl_max_le (Nat.zero_le d) fun j hj => by
      obtain ⟨t, ht, rfl⟩ := List.mem_map.mp hj
      exact h t ht⟩

/-- Collecting keeps an upper bound of the exponents, and reaches it where the sum does not vanish. -/
theorem IsIn.writtenDegree_simplify_le (h : p.IsIn l) : p.simplify.writtenDegree ≤ p.writtenDegree := by
  rw [writtenDegree_le_iff]
  intro t ht
  obtain ⟨u, hu, same⟩ := exists_natExponent_of_likeSum (h.mem_simplify ht)
  rw [← same]
  exact natExponent_le_writtenDegree hu

theorem le_writtenDegree_of_likeSum (h : (p.likeSum k).isZero = false) : k ≤ p.writtenDegree := by
  obtain ⟨t, ht, rfl⟩ := exists_natExponent_of_likeSum h
  exact natExponent_le_writtenDegree ht

theorem IsIn.coefficientsTo (h : p.IsIn l) {d : ℕ} (hd : p.writtenDegree ≤ d) :
    p.coefficientsTo d = .ok ((List.range (d + 1)).reverse.map p.likeSum) :=
  h.hasNaturalExponents.coefficientsTo hd

end Member

namespace Equation

variable {f : Equation}

theorem polynomial_of_isIn (hl : l ≠ 'y') (left : f.left.IsIn l) (right : f.right.IsIn l) :
    f.polynomial = .ok (Member.simplify ⟨f.left.terms ++ f.right.negated.terms⟩).normalize := by
  have leftSide := fun t ht => (left t ht).isDependent_eq_false hl
  have rightSide := fun t ht => (right t ht).isDependent_eq_false hl
  rw [polynomial, isExplicit_eq_false leftSide, hasDependent_eq_false leftSide rightSide]
  rfl

theorem polynomial_eqZero_of_isIn {m : Member} (hl : l ≠ 'y') (h : m.IsIn l) :
    polynomial ⟨m, ⟨[.constant .zero]⟩⟩ =
      .ok (Member.simplify ⟨m.terms ++ [.constant .negZero]⟩).normalize := by
  refine polynomial_of_isIn (f := ⟨m, ⟨[.constant .zero]⟩⟩) hl h fun t ht => ?_
  rw [List.mem_singleton.mp ht]
  exact Term.isPowerOf_constant l .zero

end Equation

end FunctionStudy
