import FunctionStudy.Proofs.Decimal.Settled
import FunctionStudy.Proofs.Equation

/-! Members of descending powers with a nonzero integer in front. Collecting like terms only drops
zeros, and a right side of zero changes nothing. -/

namespace FunctionStudy

open Term (literalOf ofPower_eq)
open Member (keyOf groupsOf groupWith)

section Zeros

variable {x : Binary64} {a : ℚ}

namespace Binary64

theorem toRat?_unsignedZero (hx : x.toRat? = some a) : x.unsignedZero.toRat? = some a := by
  rw [unsignedZero_eq hx, toRat?_round (onGrid_of_toRat? hx)]

theorem toRat?_unsignedZero_eq (x : Binary64) : x.unsignedZero.toRat? = x.toRat? := by
  cases hx : x.toRat? with
  | some a => exact toRat?_unsignedZero hx
  | none => cases x <;> first | rfl | cases hx

theorem isFinite_unsignedZero (hx : x.isFinite = true) : x.unsignedZero.isFinite = true := by
  rw [isFinite, toRat?_unsignedZero (toRat?_of_finite hx), Option.isSome_some]

theorem isZero_unsignedZero (hx : x.isFinite = true) : x.unsignedZero.isZero = x.isZero := by
  rw [isZero, isZero, toRat?_unsignedZero (toRat?_of_finite hx), toRat?_of_finite hx]

theorem unsignedZero_idem (hx : x.isFinite = true) : x.unsignedZero.unsignedZero = x.unsignedZero := by
  have value := toRat?_of_finite hx
  rw [unsignedZero_eq value, unsignedZero_eq (toRat?_round (onGrid_of_toRat? value))]

theorem zero_add_of_finite (hx : x.isFinite = true) : zero.add x = x.unsignedZero := by
  have value := toRat?_of_finite hx
  rw [add_eq_round toRat?_zero value (.inl (by simp [zero])), unsignedZero_eq value, zero_add]

theorem unsignedZero_of_isZero (h : x.isZero = true) : x.unsignedZero = zero := by
  rw [isZero, decide_eq_true_iff] at h
  rw [unsignedZero_eq h]
  exact ofInt_zero

theorem unsignedZero_add_negZero (hx : x.isFinite = true) :
    x.unsignedZero.add .negZero = x.unsignedZero := by
  have value := toRat?_of_finite hx
  have unsigned := isUnsigned_unsignedZero value
  have kept : x.unsignedZero ≠ .negZero := by
    obtain ⟨v, grid, shape⟩ := unsigned
    rw [shape]
    exact nofun
  rw [add_eq_round (toRat?_unsignedZero value) (rfl : toRat? .negZero = some 0) (.inl kept), add_zero,
    ← unsignedZero_eq value]

end Binary64

end Zeros

/-- Finite coefficients at descending exponents; the first one is a nonzero integer. -/
@[ext]
structure Powers where
  degree : ℕ
  lower : List ℕ
  coefficient : ℕ → Binary64
  leading : ℤ
  ordered : (degree :: lower).Pairwise (· > ·)
  degree_le : degree ≤ 2 ^ 53
  finite : ∀ k, (coefficient k).isFinite = true
  coefficient_degree : coefficient degree = .ofInt leading
  leading_ne_zero : leading ≠ 0
  leading_le : |leading| ≤ 2 ^ 53

namespace Powers

variable {l : Char} {k : ℕ} (p : Powers)

def exponents : List ℕ := p.degree :: p.lower

def term (l : Char) (k : ℕ) : Term := .ofPower (String.singleton l) (p.coefficient k) k

def member (l : Char) : Member := ⟨p.exponents.map (p.term l)⟩

/-- The dense coefficients, without negative zeros. -/
def dense : List Binary64 :=
  (List.range (p.degree + 1)).reverse.map fun k =>
    if k ∈ p.exponents then (p.coefficient k).unsignedZero else .zero

theorem dense_congr {p q : Powers} (degree : p.degree = q.degree)
    (exponents : p.exponents = q.exponents)
    (coefficients : ∀ k, (p.coefficient k).unsignedZero = (q.coefficient k).unsignedZero) :
    p.dense = q.dense := by
  simp only [dense, degree, exponents, coefficients]

theorem le_degree (hk : k ∈ p.exponents) : k ≤ p.degree := by
  rcases List.mem_cons.mp hk with rfl | hk
  · exact le_rfl
  · exact (List.rel_of_pairwise_cons p.ordered hk).le

theorem isDouble (hk : k ∈ p.exponents) : IsDouble k :=
  isDouble_of_le ((p.le_degree hk).trans p.degree_le)

theorem nodup_exponents : p.exponents.Nodup := p.ordered.imp fun above => above.ne'

theorem natExponent_term (hk : k ∈ p.exponents) : (p.term l k).natExponent = k :=
  Term.natExponent_ofPower (p.isDouble hk) _

theorem hasNaturalExponents_member : (p.member l).HasNaturalExponents := by
  intro t ht
  obtain ⟨k, hk, rfl⟩ := List.mem_map.mp ht
  rw [p.natExponent_term hk, term, ofPower_eq]
  exact Term.toRat?_exponent_literalOf (p.isDouble hk) _

section Degree

theorem writtenDegree_member : (p.member l).writtenDegree = p.degree := by
  have exponents : (p.member l).terms.map Term.natExponent = p.exponents := by
    rw [member, List.map_map]
    exact (List.map_congr_left fun k hk => p.natExponent_term hk).trans (List.map_id _)
  rw [Member.writtenDegree, exponents]
  apply le_antisymm
  · exact Member.foldl_max_le (Nat.zero_le _) fun k hk => p.le_degree hk
  · exact (Member.le_foldl_max _ 0).2 _ List.mem_cons_self

theorem toRat?_degree_member : (p.member l).degree.toRat? = some (((p.degree : ℕ) : ℤ) : ℚ) := by
  have value := p.hasNaturalExponents_member (l := l) |>.toRat?_degree
  rw [writtenDegree_member] at value
  exact_mod_cast value

theorem normalize_member : (p.member l).normalize = p.member l := by
  have sorted : (p.member l).terms.Pairwise fun t u => descending Term.natExponent t u = true := by
    rw [member, List.pairwise_map]
    refine p.ordered.imp_of_mem fun hj hk above => ?_
    rw [descending, p.natExponent_term hj, p.natExponent_term hk, decide_eq_true_iff]
    exact above.le
  have terms := p.hasNaturalExponents_member (l := l) |>.normalize_terms
  rw [List.mergeSort_of_pairwise sorted] at terms
  exact congrArg Member.mk terms

theorem filter_natExponent (k : ℕ) :
    (p.member l).terms.filter (fun t => t.natExponent = k) =
      if k ∈ p.exponents then [p.term l k] else [] := by
  have same : p.exponents.filter (fun j => decide ((p.term l j).natExponent = k)) =
      p.exponents.filter fun j => decide (j = k) :=
    List.filter_congr fun j hj => by rw [p.natExponent_term hj]
  rw [member, List.filter_map]
  refine (congrArg (List.map (p.term l)) same).trans ?_
  rw [List.filter_eq, p.nodup_exponents.count]
  split_ifs <;> simp

theorem coefficientsTo_member : (p.member l).coefficientsTo p.degree = .ok p.dense := by
  rw [p.hasNaturalExponents_member.coefficientsTo p.writtenDegree_member.le, dense]
  refine congrArg _ (List.map_congr_left fun k _ => ?_)
  rw [filter_natExponent]
  split_ifs
  · rw [List.map_singleton, term, ofPower_eq]
    exact Binary64.zero_add_of_finite (p.finite k)
  · rfl

theorem coefficients_member : (p.member l).coefficients = .ok p.dense := by
  rw [p.hasNaturalExponents_member.coefficients, writtenDegree_member, coefficientsTo_member]

end Degree

section LikeTerms

/-- The member without zeros of either sign. -/
def collected : Powers where
  degree := p.degree
  lower := p.lower.filter fun k => !(p.coefficient k).isZero
  coefficient k := (p.coefficient k).unsignedZero
  leading := p.leading
  ordered := by
    obtain ⟨first, rest⟩ := List.pairwise_cons.mp p.ordered
    exact List.pairwise_cons.mpr ⟨fun k hk => first k (List.mem_of_mem_filter hk), rest.filter _⟩
  degree_le := p.degree_le
  finite k := Binary64.isFinite_unsignedZero (p.finite k)
  coefficient_degree := by
    rw [coefficient_degree, Binary64.unsignedZero_eq (Binary64.toRat?_ofInt p.leading_le), Binary64.ofInt]
  leading_ne_zero := p.leading_ne_zero
  leading_le := p.leading_le

theorem isZero_coefficient_degree : (p.coefficient p.degree).isZero = false := by
  rw [coefficient_degree, ← Bool.not_eq_true, isZero_ofInt p.leading_le]
  exact p.leading_ne_zero

theorem mem_collected_exponents :
    k ∈ p.collected.exponents ↔ k ∈ p.exponents ∧ (p.coefficient k).isZero = false := by
  have first := p.isZero_coefficient_degree
  simp only [exponents, collected, List.mem_cons, List.mem_filter, Bool.not_eq_true']
  constructor
  · rintro (rfl | ⟨hk, nonzero⟩)
    · exact ⟨.inl rfl, first⟩
    · exact ⟨.inr hk, nonzero⟩
  · rintro ⟨rfl | hk, nonzero⟩
    · exact .inl rfl
    · exact .inr ⟨hk, nonzero⟩

theorem collected_collected : p.collected.collected = p.collected := by
  have zeros : ∀ k, (p.coefficient k).unsignedZero.isZero = (p.coefficient k).isZero := fun k =>
    Binary64.isZero_unsignedZero (p.finite k)
  ext1
  · rfl
  · simp only [collected, zeros, List.filter_filter, Bool.and_self]
  · exact funext fun k => Binary64.unsignedZero_idem (p.finite k)
  · rfl

theorem dense_collected : p.collected.dense = p.dense := by
  refine List.map_congr_left fun k _ => ?_
  simp only [mem_collected_exponents]
  by_cases hk : k ∈ p.exponents
  · cases zero : (p.coefficient k).isZero with
    | true => simp [hk, Binary64.unsignedZero_of_isZero zero]
    | false =>
      simp only [hk, and_self, if_true]
      exact Binary64.unsignedZero_idem (p.finite k)
  · simp [hk]

theorem groupWith_power {ks : List ℕ} (hk : IsDouble k) (doubles : ∀ j ∈ ks, IsDouble j) (c : Binary64) :
    groupWith (groupsOf l ks) ⟨c, literalOf l k⟩ = groupsOf l (if k ∈ ks then ks else ks ++ [k]) := by
  have zero : (Binary64.ofInt 0).toRat? = some ((0 : ℤ) : ℚ) := Binary64.toRat?_ofInt (by norm_num)
  have integer := Term.isIntegerIn_literalOf (l := l) zero hk
  have exponent : (Term.mk (.ofInt 0) (literalOf l k)).natExponent = k := by
    rw [← ofPower_eq]
    exact Term.natExponent_ofPower hk _
  have grouped := Member.groupWith_groupsOf integer doubles
  rw [exponent] at grouped
  exact grouped

theorem foldl_groupWith_powers {seen ks : List ℕ} (apart : (seen ++ ks).Nodup)
    (doubles : ∀ k ∈ seen ++ ks, IsDouble k) :
    (ks.map (p.term l)).foldl groupWith (groupsOf l seen) = groupsOf l (seen ++ ks) := by
  induction ks generalizing seen with
  | nil => rw [List.append_nil]; rfl
  | cons k ks ih =>
    have new : k ∉ seen := fun old => (List.nodup_append.mp apart).2.2 k old k (by simp) rfl
    rw [List.map_cons, List.foldl_cons, term, ofPower_eq,
      groupWith_power (doubles k (by simp)) (fun j hj => doubles j (by simp [hj])), if_neg new,
      ih (by simpa using apart) (by simpa using doubles), List.append_assoc, List.singleton_append]

/-- A zero constant, as the right side of an equation leaves it. -/
def IsZeroConstant (extra : List Term) : Prop := extra = [] ∨ extra = [.constant .negZero]

variable {extra : List Term}

def exponentsWith (extra : List Term) : List ℕ :=
  if extra = [] ∨ 0 ∈ p.exponents then p.exponents else p.exponents ++ [0]

theorem groups_append (h : IsZeroConstant extra) :
    Member.groups ⟨(p.member l).terms ++ extra⟩ = groupsOf l (p.exponentsWith extra) := by
  have own : (p.exponents.map (p.term l)).foldl groupWith (groupsOf l []) = groupsOf l p.exponents :=
    p.foldl_groupWith_powers p.nodup_exponents fun k hk => p.isDouble hk
  rw [Member.groups_eq, List.foldl_append]
  change extra.foldl groupWith ((p.exponents.map (p.term l)).foldl groupWith (groupsOf l [])) = _
  rw [own, exponentsWith]
  rcases h with rfl | rfl
  · simp
  · rw [List.foldl_cons, List.foldl_nil]
    refine (groupWith_power (k := 0) (isDouble_of_le (by norm_num)) (fun j hj => p.isDouble hj) _).trans ?_
    simp

theorem filter_key (hk : IsDouble k) :
    (p.member l).terms.filter (fun t => t.key == keyOf l k) =
      if k ∈ p.exponents then [p.term l k] else [] := by
  rw [← filter_natExponent]
  refine List.filter_congr fun t ht => ?_
  obtain ⟨j, hj, rfl⟩ := List.mem_map.mp ht
  have key : (p.term l j).key = keyOf l j := by
    rw [term, ofPower_eq]
    rfl
  rw [Bool.eq_iff_iff, beq_iff_eq, decide_eq_true_iff, key, p.natExponent_term hj]
  exact ⟨Member.keyOf_injective (p.isDouble hj) hk, fun e => e ▸ rfl⟩

theorem isDouble_exponentsWith (hk : k ∈ p.exponentsWith extra) : IsDouble k := by
  unfold exponentsWith at hk
  split_ifs at hk
  · exact p.isDouble hk
  · rcases List.mem_append.mp hk with hk | hk
    · exact p.isDouble hk
    · rw [List.mem_singleton.mp hk]
      exact isDouble_of_le (by norm_num)

theorem coefficientSum_append (h : IsZeroConstant extra) (hk : k ∈ p.exponentsWith extra) :
    Member.coefficientSum ⟨(p.member l).terms ++ extra⟩ (keyOf l k) =
      if k ∈ p.exponents then (p.coefficient k).unsignedZero else .zero := by
  have double := p.isDouble_exponentsWith hk
  have own : Binary64.sum ((if k ∈ p.exponents then [p.term l k] else []).map (·.coefficient)) =
      if k ∈ p.exponents then (p.coefficient k).unsignedZero else .zero := by
    split_ifs
    · rw [List.map_singleton, term, ofPower_eq]
      exact Binary64.zero_add_of_finite (p.finite k)
    · rfl
  rw [Member.coefficientSum, List.filter_append, p.filter_key double]
  rcases h with rfl | rfl
  · rw [List.filter_nil, List.append_nil, own]
  · have key : ((Term.constant .negZero).key == keyOf l k) = decide (k = 0) := by
      rw [← Member.isEmpty_keyOf (l := l) double, Bool.eq_iff_iff, beq_iff_eq, String.isEmpty_iff]
      exact eq_comm
    rw [List.filter_singleton, key]
    by_cases zero : k = 0
    · rw [decide_eq_true zero, cond_true, List.map_append, Binary64.sum, List.foldl_append,
        ← Binary64.sum, own]
      split_ifs
      · exact Binary64.unsignedZero_add_negZero (p.finite k)
      · decide +kernel
    · rw [decide_eq_false zero, cond_false, List.append_nil, own]

theorem simplify_append (h : IsZeroConstant extra) :
    Member.simplify ⟨(p.member l).terms ++ extra⟩ = p.collected.member l := by
  have terms : ∀ k ∈ p.exponentsWith extra,
      Term.mk (Member.coefficientSum ⟨(p.member l).terms ++ extra⟩ (keyOf l k)) (literalOf l k) =
        ⟨if k ∈ p.exponents then (p.coefficient k).unsignedZero else .zero, literalOf l k⟩ := by
    intro k hk
    rw [p.coefficientSum_append h hk]
  have kept : (p.exponentsWith extra).filter (fun k =>
      !(if k ∈ p.exponents then (p.coefficient k).unsignedZero else .zero : Binary64).isZero) =
        p.collected.exponents := by
    have own : p.exponents.filter (fun k =>
        !(if k ∈ p.exponents then (p.coefficient k).unsignedZero else .zero : Binary64).isZero) =
          p.collected.exponents := by
      rw [exponents, List.filter_cons_of_pos]
      · refine congrArg (List.cons p.degree) (List.filter_congr fun k hk => ?_)
        rw [if_pos (List.mem_cons_of_mem _ hk), Binary64.isZero_unsignedZero (p.finite k)]
      · rw [if_pos List.mem_cons_self, Binary64.isZero_unsignedZero (p.finite _), isZero_coefficient_degree]
        rfl
    rw [exponentsWith]
    split_ifs with same
    · exact own
    · have none : 0 ∉ p.exponents := (not_or.mp same).2
      rw [List.filter_append, own, List.filter_singleton, if_neg none]
      exact List.append_nil _
  rw [Member.simplify, p.groups_append h, groupsOf, List.map_map]
  refine (congrArg (fun ts => Member.mk (List.filter _ ts)) (List.map_congr_left terms)).trans ?_
  rw [List.filter_map, member]
  refine congrArg Member.mk ((congrArg (List.map _) kept).trans ?_)
  refine List.map_congr_left fun k hk => ?_
  rw [if_pos (p.mem_collected_exponents.mp hk).1, term, ofPower_eq]
  rfl

end LikeTerms

section Equations

theorem isDependent_term (hl : l ≠ 'y') (k : ℕ) : (p.term l k).isDependent = false := by
  rw [term, ofPower_eq, Term.isDependent, literalOf]
  split_ifs
  · rfl
  · simp only [isDependentLetter_singleton hl, Bool.false_and]

theorem polynomial_append (hl : l ≠ 'y') {right : Member} (h : IsZeroConstant right.negated.terms) :
    Equation.polynomial ⟨p.member l, right⟩ = .ok (p.collected.member l) := by
  have leftSide : ∀ t ∈ (p.member l).terms, t.isDependent = false := by
    intro t ht
    obtain ⟨k, -, rfl⟩ := List.mem_map.mp ht
    exact p.isDependent_term hl k
  have rightSide : ∀ t ∈ right.terms, t.isDependent = false := by
    intro t ht
    have constant : t.literal = none := by
      have member : t.negated ∈ right.negated.terms := List.mem_map_of_mem ht
      rcases h with none | one
      · rw [none] at member
        cases member
      · rw [one, List.mem_singleton] at member
        exact congrArg Term.literal member
    rw [Term.isDependent, constant]
  rw [Equation.polynomial, Equation.isExplicit_eq_false leftSide,
    Equation.hasDependent_eq_false leftSide rightSide, p.simplify_append h, normalize_member]
  rfl

theorem polynomial_oneSided (hl : l ≠ 'y') :
    Equation.polynomial ⟨p.member l, ⟨[]⟩⟩ = .ok (p.collected.member l) :=
  p.polynomial_append hl (.inl rfl)

theorem polynomial_eqZero (hl : l ≠ 'y') :
    Equation.polynomial ⟨p.member l, ⟨[.constant .zero]⟩⟩ = .ok (p.collected.member l) :=
  p.polynomial_append hl (.inr rfl)

theorem simplify_member : (p.member l).simplify = p.collected.member l := by
  have plain := p.simplify_append (l := l) (.inl rfl)
  rwa [List.append_nil] at plain

end Equations

end Powers
end FunctionStudy
