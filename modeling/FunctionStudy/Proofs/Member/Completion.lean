import FunctionStudy.Proofs.Member.Sparse

/-! Completed members. A zero term is put for each exponent that has no term. Zeros add nothing to
sums, so the dense coefficients stay what they are. -/

namespace FunctionStudy

open Term (ofPower)

theorem not_isDouble_two_pow_add_one : ¬ IsDouble (2 ^ 53 + 1) := by
  unfold IsDouble
  decide +kernel

theorem forall_isDouble_iff {d : ℕ} : (∀ k ≤ d, IsDouble k) ↔ d ≤ 2 ^ 53 := by
  constructor
  · intro doubles
    by_contra above
    exact not_isDouble_two_pow_add_one (doubles _ (not_le.mp above))
  · exact fun below k hk => isDouble_of_le (hk.trans below)

namespace Binary64

theorem sum_append_zeros {xs ys : List Binary64} (zeros : ∀ y ∈ ys, y = zero) : sum (xs ++ ys) = sum xs := by
  induction ys using List.reverseRecOn with
  | nil => rw [List.append_nil]
  | append_singleton ys y ih =>
    have before := ih fun z hz => zeros z (List.mem_append_left _ hz)
    obtain rfl := zeros y (List.mem_append_right _ (List.mem_singleton_self y))
    rw [← List.append_assoc, sum, List.foldl_append, ← sum, before]
    exact unsignedZero_eq_self (sum_ne_negZero xs)

end Binary64

namespace Member

variable {p q : Member} {d k : ℕ} {letter : String}

/-- Terms of different natural exponents, of which just the one of exponent 0 has no literal part. -/
structure IsSparse (p : Member) : Prop where
  natural : p.HasNaturalExponents
  distinct : (p.terms.map Term.natExponent).Nodup
  constant : ∀ t ∈ p.terms, t.literal = none ↔ t.natExponent = 0

/-- A term for each of the exponents `d`, …, 0 in this order: the terms of the member as they are, and zeros. -/
structure IsCompletion (p q : Member) (d : ℕ) (letter : String) : Prop where
  exponents : q.terms.map (·.exponent.toRat?) = (List.range (d + 1)).reverse.map fun k : ℕ => some (k : ℚ)
  kept : ∃ added, q.terms.Perm (p.terms ++ added) ∧
    ∀ t ∈ added, t.coefficient = .zero ∧ ∀ m ∈ t.literal, m.letter = letter
  coefficients : ∃ cs, p.coefficientsTo d = .ok cs ∧ q.coefficientsTo d = .ok cs

def missing (p : Member) (d : ℕ) : List ℕ :=
  (List.range (d + 1)).reverse.filter fun k => k ∉ p.terms.map Term.natExponent

/-- The member with a zero term for each of these exponents, before it is sorted. -/
def filled (p : Member) (d : ℕ) (letter : String) : Member :=
  ⟨p.terms ++ (p.missing d).map (ofPower letter .zero)⟩

theorem mem_missing : k ∈ p.missing d ↔ k ≤ d ∧ k ∉ p.terms.map Term.natExponent := by
  rw [missing, List.mem_filter, List.mem_reverse, List.mem_range, Nat.lt_succ_iff, decide_eq_true_iff]

theorem range_succ_reverse (d : ℕ) :
    (List.range (d + 1)).reverse = (List.range d).reverse.map (· + 1) ++ [0] := by
  rw [List.range_succ_eq_map, List.reverse_cons, List.map_reverse]

namespace IsSparse

variable (h : p.IsSparse)

include h

theorem any_exponent (hk : IsDouble k) (positive : k ≠ 0) :
    ((p.terms.filterMap (·.literal)).map (·.exponent)).any (·.same (.ofInt k)) = true ↔
      k ∈ p.terms.map Term.natExponent := by
  simp only [List.any_eq_true, List.mem_map, List.mem_filterMap]
  constructor
  · rintro ⟨_, ⟨m, ⟨t, ht, literal⟩, rfl⟩, same⟩
    have value := h.natural t ht
    rw [Term.exponent, literal, Option.map_some, Option.getD_some] at value
    exact ⟨t, ht, Nat.cast_injective ((Binary64.same_iff value hk).mp same)⟩
  · rintro ⟨t, ht, rfl⟩
    have value := h.natural t ht
    obtain ⟨m, literal⟩ := Option.ne_none_iff_exists'.mp (mt (h.constant t ht).mp positive)
    rw [Term.exponent, literal, Option.map_some, Option.getD_some] at value
    exact ⟨_, ⟨m, ⟨t, ht, literal⟩, rfl⟩, (Binary64.same_iff value hk).mpr rfl⟩

theorem any_isNone : p.terms.any (·.literal.isNone) = true ↔ 0 ∈ p.terms.map Term.natExponent := by
  simp only [List.any_eq_true, Option.isNone_iff_eq_none, List.mem_map]
  exact exists_congr fun t => and_congr_right fun ht => h.constant t ht

theorem placeholders_eq (doubles : ∀ k ≤ d, IsDouble k) : p.placeholders d letter =
    (((List.range d).reverse.map (· + 1)).filter fun k => k ∉ p.terms.map Term.natExponent).map
      (ofPower letter .zero) := by
  have range : ∀ k ∈ (List.range d).reverse.map (· + 1), k ≤ d ∧ k ≠ 0 := by
    intro k hk
    obtain ⟨n, hn, rfl⟩ := List.mem_map.mp hk
    exact ⟨List.mem_range.mp (List.mem_reverse.mp hn), n.succ_ne_zero⟩
  have mapped : ((List.range d).reverse.map fun n : ℕ => Binary64.ofInt (n + 1 : ℕ)) =
      ((List.range d).reverse.map (· + 1)).map fun k : ℕ => Binary64.ofInt k := by
    rw [List.map_map]
    rfl
  unfold placeholders
  dsimp only
  rw [Int.toNat_natCast, mapped, List.filter_map, List.map_map]
  generalize (List.range d).reverse.map (· + 1) = ks at range
  have absent : ∀ k ∈ ks, (!((p.terms.filterMap (·.literal)).map (·.exponent)).any (·.same (.ofInt (k : ℕ)))) =
      decide (k ∉ p.terms.map Term.natExponent) := fun k hk => by
    rw [Bool.eq_iff_iff, Bool.not_eq_true', ← Bool.not_eq_true, decide_eq_true_iff]
    exact not_congr (h.any_exponent (doubles k (range k hk).1) (range k hk).2)
  refine (congrArg (List.map _) (List.filter_congr absent)).trans (List.map_congr_left fun k hk => ?_)
  rw [ofPower, if_neg (range k (List.mem_of_mem_filter hk)).2]
  rfl

theorem completeTo_eq (doubles : ∀ k ≤ d, IsDouble k) : p.completeTo d letter = (p.filled d letter).normalize := by
  have constants : (if p.terms.any (·.literal.isNone) then [] else [Term.constant .zero]) =
      ([0].filter fun k => k ∉ p.terms.map Term.natExponent).map (ofPower letter .zero) := by
    by_cases there : 0 ∈ p.terms.map Term.natExponent
    · rw [if_pos (h.any_isNone.mpr there), List.filter_singleton, decide_eq_false (not_not.mpr there)]
      rfl
    · rw [if_neg (mt h.any_isNone.mp there), List.filter_singleton, decide_eq_true there]
      rfl
  unfold completeTo
  dsimp only
  rw [h.placeholders_eq doubles, constants, List.append_assoc, ← List.map_append, ← List.filter_append,
    ← range_succ_reverse]
  rfl

theorem natExponent_filled_perm (letter : String) (above : p.writtenDegree ≤ d) (doubles : ∀ k ≤ d, IsDouble k) :
    ((p.filled d letter).terms.map Term.natExponent).Perm (List.range (d + 1)).reverse := by
  have added : (p.missing d).map (Term.natExponent ∘ ofPower letter .zero) = p.missing d :=
    (List.map_congr_left fun k hk => Term.natExponent_ofPower (doubles k (mem_missing.mp hk).1) .zero).trans
      (List.map_id _)
  have missingOnce : (p.missing d).Nodup := (List.nodup_reverse.mpr List.nodup_range).filter _
  rw [filled, List.map_append, List.map_map, added,
    List.perm_ext_iff_of_nodup (h.distinct.append missingOnce fun k written absent => (mem_missing.mp absent).2 written)
      (List.nodup_reverse.mpr List.nodup_range)]
  intro k
  rw [List.mem_append, mem_missing, List.mem_reverse, List.mem_range, Nat.lt_succ_iff]
  constructor
  · rintro (written | ⟨below, -⟩)
    · obtain ⟨t, ht, rfl⟩ := List.mem_map.mp written
      exact writtenDegree_le_iff.mp above t ht
    · exact below
  · intro below
    by_cases written : k ∈ p.terms.map Term.natExponent
    · exact .inl written
    · exact .inr ⟨below, written⟩

theorem hasNaturalExponents_filled (letter : String) (doubles : ∀ k ≤ d, IsDouble k) :
    (p.filled d letter).HasNaturalExponents := by
  intro t ht
  rcases List.mem_append.mp ht with ht | ht
  · exact h.natural t ht
  · obtain ⟨k, hk, rfl⟩ := List.mem_map.mp ht
    have double := doubles k (mem_missing.mp hk).1
    rw [Term.natExponent_ofPower double]
    exact Term.toRat?_exponent_ofPower letter .zero double

/-- Sorting leaves no choice where no two exponents are the same. -/
theorem natExponent_completeTo (letter : String) (above : p.writtenDegree ≤ d) (doubles : ∀ k ≤ d, IsDouble k) :
    (p.completeTo d letter).terms.map Term.natExponent = (List.range (d + 1)).reverse := by
  have sorted : ((p.completeTo d letter).terms.map Term.natExponent).Pairwise (· ≥ ·) := by
    rw [h.completeTo_eq doubles, (h.hasNaturalExponents_filled letter doubles).normalize_terms, List.pairwise_map]
    exact (List.pairwise_mergeSort descending_trans descending_total _).imp fun order => of_decide_eq_true order
  have range : (List.range (d + 1)).reverse.Pairwise (· ≥ ·) :=
    List.pairwise_reverse.mpr (List.pairwise_lt_range.imp le_of_lt)
  refine List.Perm.eq_of_pairwise (fun _ _ _ _ => ge_antisymm) sorted range (.trans ?_
    (h.natExponent_filled_perm letter above doubles))
  rw [h.completeTo_eq doubles]
  exact (List.mergeSort_perm _ _).map _

end IsSparse

theorem likeSum_filled (p : Member) (d : ℕ) (letter : String) (k : ℕ) :
    (p.filled d letter).likeSum k = p.likeSum k := by
  rw [likeSum, filled, List.filter_append, List.map_append]
  refine Binary64.sum_append_zeros fun c hc => ?_
  obtain ⟨t, ht, rfl⟩ := List.mem_map.mp hc
  obtain ⟨j, -, rfl⟩ := List.mem_map.mp (List.mem_of_mem_filter ht)
  exact Term.coefficient_ofPower letter .zero j

theorem letter_of_mem_ofPower {c : Binary64} {m : Literal} (hm : m ∈ (ofPower letter c k).literal) :
    m.letter = letter := by
  unfold ofPower at hm
  split_ifs at hm
  · cases hm
  · exact congrArg Literal.letter (Option.some.inj hm).symm

theorem IsSparse.isCompletion (h : p.IsSparse) (above : p.writtenDegree ≤ d) (doubles : ∀ k ≤ d, IsDouble k) :
    p.IsCompletion (p.completeTo d letter) d letter := by
  have natural := h.hasNaturalExponents_filled letter doubles
  have sorted : (p.completeTo d letter).terms.Perm (p.filled d letter).terms := by
    rw [h.completeTo_eq doubles]
    exact List.mergeSort_perm _ _
  have exponents := h.natExponent_completeTo letter above doubles
  have values : (p.completeTo d letter).HasNaturalExponents := fun t ht => natural t (sorted.mem_iff.mp ht)
  have degree : (p.completeTo d letter).writtenDegree ≤ d := by
    refine writtenDegree_le_iff.mpr fun t ht => ?_
    have member := List.mem_map_of_mem (f := Term.natExponent) ht
    rw [exponents] at member
    exact Nat.le_of_lt_succ (List.mem_range.mp (List.mem_reverse.mp member))
  refine ⟨?_, ⟨_, sorted, fun t ht => ?_⟩, _, h.natural.coefficientsTo above, ?_⟩
  · rw [← exponents, List.map_map]
    exact List.map_congr_left values
  · obtain ⟨k, -, rfl⟩ := List.mem_map.mp ht
    exact ⟨Term.coefficient_ofPower letter .zero k, fun m hm => letter_of_mem_ofPower hm⟩
  · rw [values.coefficientsTo degree]
    refine congrArg Except.ok (List.map_congr_left fun k _ => ?_)
    rw [← likeSum, ← likeSum, h.completeTo_eq doubles, natural.likeSum_normalize, likeSum_filled]

/-- A member can have an exponent only if it is a double. -/
theorem IsCompletion.isDouble (h : p.IsCompletion q d letter) (hk : k ≤ d) : IsDouble k := by
  have member : some (k : ℚ) ∈ q.terms.map (·.exponent.toRat?) := by
    rw [h.exponents]
    exact List.mem_map.mpr ⟨k, List.mem_reverse.mpr (List.mem_range.mpr (Nat.lt_succ_of_le hk)), rfl⟩
  obtain ⟨t, -, value⟩ := List.mem_map.mp member
  exact isDouble_of_toRat? value

/-- No name stands for the member's own letter. -/
theorem complete_eq {x : Binary64} (hx : x.toRat? = some (d : ℚ)) (letter : String) :
    p.complete (some x) (some letter) = .ok (p.completeTo d (if letter = "" then p.letter else letter)) := by
  have whole : x.toRat? = some ((d : ℤ) : ℚ) := by rw [hx, Int.cast_natCast]
  simp only [complete, Option.getD_some, Binary64.toInt_intCast whole, bind, Except.bind, pure, Except.pure]
  split
  · next none => cases none
  · next empty => rw [if_pos (Option.some.inj empty)]
  · next given =>
    obtain rfl := Option.some.inj given
    rw [if_neg ‹_›]

/-- Completing a member up to a degree that none of its exponents exceeds keeps its terms and adds zeros, so that
there is one term for each exponent from the degree down to 0 and the dense coefficients stay what they are. This is
so for all degrees up to `2^53` (no memory has room for more terms), and for no others: not all exponents below them
are doubles. -/
theorem complete_dense (h : p.IsSparse) (above : p.degree.toRat ≤ d) (letter : String) :
    (∀ x : Binary64, x.toRat? = some (d : ℚ) → p.complete (some x) (some letter) =
      .ok (p.completeTo d (if letter = "" then p.letter else letter))) ∧
    ∀ name, p.IsCompletion (p.completeTo d name) d name ↔ d ≤ 2 ^ 53 := by
  rw [Binary64.toRat_eq h.natural.toRat?_degree, Nat.cast_le] at above
  refine ⟨fun x hx => complete_eq hx letter, fun name => ?_⟩
  rw [← forall_isDouble_iff]
  exact ⟨fun completed k hk => completed.isDouble hk, fun doubles => h.isCompletion above doubles⟩

/-- `3x-2x^4` up to the degree 5, with another letter for the new terms. -/
theorem complete_dense_gaps : ∃ p q, parse "3x-2x^4" = .ok p ∧ p.IsSparse ∧ p.degree.toRat ≤ (5 : ℕ) ∧
    p.complete (some (.ofInt 5)) (some "z") = .ok q ∧ p.IsCompletion q 5 "z" ∧
    q.terms.map (·.exponent.toRat?) = [some 5, some 4, some 3, some 2, some 1, some 0] := by
  let power (a k : ℤ) : Term := ⟨.ofInt a, some { letter := "x", exponent := .ofInt k }⟩
  let p : Member := ⟨[power 3 1, power (-2) 4]⟩
  have sparse : p.IsSparse := ⟨by unfold HasNaturalExponents; decide +kernel, by decide +kernel, by decide +kernel⟩
  have above : p.degree.toRat ≤ (5 : ℕ) := by decide +kernel
  obtain ⟨called, completed⟩ := complete_dense sparse above "z"
  have dense := (completed "z").mpr (by decide)
  exact ⟨p, _, by decide +kernel, sparse, above, called (.ofInt 5) (by decide +kernel), dense,
    dense.exponents.trans (by decide +kernel)⟩

end Member
end FunctionStudy
