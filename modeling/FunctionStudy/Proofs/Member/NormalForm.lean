import Mathlib.Data.List.Sort
import FunctionStudy.Proofs.Binary64.Order
import FunctionStudy.Proofs.Member.Canonical

/-! Normal forms. Sorting a member keeps its polynomial, and collecting like terms and sorting
leaves the member of the dense coefficients. So two members in one letter with one polynomial are
printed alike after both. -/

namespace FunctionStudy

section Sorting

variable {α : Type} {key : α → ℕ} {l : List α}

def descending (key : α → ℕ) (a b : α) : Bool := key b ≤ key a

theorem descending_trans (a b c : α) :
    descending key a b = true → descending key b c = true → descending key a c = true := by
  simp only [descending, decide_eq_true_eq]
  omega

theorem descending_total (a b : α) : (descending key a b || descending key b a) = true := by
  simp only [descending, Bool.or_eq_true, decide_eq_true_eq]
  omega

/-- Sorting keeps the order of what it has no order for. -/
theorem filter_mergeSort_of_ties {le : α → α → Bool} (trans : ∀ a b c, le a b = true → le b c = true → le a c = true)
    (total : ∀ a b, (le a b || le b a) = true) {tied : α → Bool}
    (ties : ∀ a b, tied a = true → tied b = true → le a b = true) :
    (l.mergeSort le).filter tied = l.filter tied := by
  have like : (l.filter tied).Pairwise fun a b => le a b = true :=
    List.Pairwise.imp_of_mem (R := fun _ _ => True)
      (fun ha hb _ => ties _ _ (List.mem_filter.mp ha).2 (List.mem_filter.mp hb).2)
      (List.pairwise_of_forall fun _ _ => trivial)
  have kept := List.sublist_mergeSort trans total like List.filter_sublist
  have again := kept.filter tied
  rw [List.filter_filter] at again
  simp only [Bool.and_self] at again
  exact (again.eq_of_length ((List.mergeSort_perm l _).filter _).length_eq.symm).symm

theorem filter_mergeSort (k : ℕ) :
    (l.mergeSort (descending key)).filter (fun a => key a = k) =
      l.filter fun a => key a = k := by
  refine filter_mergeSort_of_ties descending_trans descending_total fun a b ha hb => ?_
  rw [decide_eq_true_iff] at ha hb
  exact decide_eq_true (by omega)

end Sorting

namespace Member

variable {l : Char} {p : Member}

theorem normalize_eq_self (sorted : p.terms.Pairwise fun t u => (!(t.exponent.lt u.exponent)) = true) :
    p.normalize = p := by
  rw [normalize, List.mergeSort_of_pairwise sorted]

theorem HasNaturalExponents.normalize_terms (h : p.HasNaturalExponents) :
    p.normalize.terms = p.terms.mergeSort (descending Term.natExponent) := by
  refine mergeSort_congr fun t ht u hu => ?_
  have order := Binary64.lt_iff (h t ht) (h u hu)
  rw [Nat.cast_lt] at order
  rw [Bool.eq_iff_iff, Bool.not_eq_true', ← Bool.not_eq_true, order, descending,
    decide_eq_true_iff, not_lt]

theorem normalize_terms (h : ∀ t ∈ p.terms, t.IsIntegerIn l) :
    p.normalize.terms = p.terms.mergeSort (descending Term.natExponent) :=
  HasNaturalExponents.normalize_terms fun t ht => (h t ht).toRat?_exponent

theorem likeCoefficients_normalize (h : ∀ t ∈ p.terms, t.IsIntegerIn l) (k : ℕ) :
    p.normalize.likeCoefficients k = p.likeCoefficients k := by
  rw [likeCoefficients, likeCoefficients, normalize_terms h, filter_mergeSort]

theorem IsIntegerIn.normalize (h : p.IsIntegerIn l) : p.normalize.IsIntegerIn l where
  terms t ht := h.terms t (List.mem_mergeSort.mp ht)
  sums k := by rw [likeCoefficients_normalize h.terms]; exact h.sums k

theorem toPolynomial_normalize (h : ∀ t ∈ p.terms, t.IsIntegerIn l) :
    p.normalize.toPolynomial = p.toPolynomial := by
  ext k
  rw [coeff_toPolynomial, coeff_toPolynomial, likeCoefficients_normalize h]

theorem writtenDegree_normalize : p.normalize.writtenDegree = p.writtenDegree :=
  ((List.mergeSort_perm p.terms _).map Term.natExponent).foldl_eq 0

theorem letter_eq (h : ∀ t ∈ p.terms, t.IsIntegerIn l) (dependent : l ≠ 'y')
    (some : ∃ t ∈ p.terms, t.literal.isSome = true) : p.letter = String.singleton l := by
  have letters : ∀ m ∈ p.terms.filterMap (·.literal), m.letter = String.singleton l := by
    intro m hm
    obtain ⟨t, ht, hm⟩ := List.mem_filterMap.mp hm
    exact ((h t ht).literal m hm).1
  have other : (String.singleton l).startsWith "y" = false := by
    rw [String.startsWith_string_eq_false_iff]
    simpa [eq_comm] using dependent
  unfold letter
  cases hl : p.terms.filterMap (·.literal) with
  | nil =>
    obtain ⟨t, ht, hm⟩ := some
    obtain ⟨m, hm⟩ := Option.isSome_iff_exists.mp hm
    have := List.mem_filterMap.mpr ⟨t, ht, hm⟩
    rw [hl] at this
    cases this
  | cons m rest =>
    have name := letters m (by simp [hl])
    simp [name, other]

theorem IsIntegerIn.letter_eq (h : p.IsIntegerIn l) (dependent : l ≠ 'y')
    (degree : 0 < p.toPolynomial.natDegree) : p.letter = String.singleton l := by
  apply Member.letter_eq h.terms dependent
  have leading : p.toPolynomial.coeff p.toPolynomial.natDegree ≠ 0 :=
    Polynomial.leadingCoeff_ne_zero.mpr (Polynomial.ne_zero_of_natDegree_gt degree)
  obtain ⟨t, ht, exponent⟩ := exists_natExponent_of_coeff leading
  refine ⟨t, ht, ?_⟩
  cases hm : t.literal with
  | none =>
    have zero : t.natExponent = 0 := by
      simp [Term.natExponent, Term.exponent, hm, Binary64.toRat_eq Binary64.toRat?_zero]
    omega
  | some m => rfl

theorem isDouble_of_coeff (h : ∀ t ∈ p.terms, t.IsIntegerIn l) {k : ℕ}
    (hk : p.toPolynomial.coeff k ≠ 0) : IsDouble k := by
  obtain ⟨t, ht, rfl⟩ := exists_natExponent_of_coeff hk
  exact isDouble_of_toRat? (h t ht).toRat?_exponent

section LikeTerms

open Term (literalOf)

/-- The key of the terms with an exponent. -/
def keyOf (l : Char) (k : ℕ) : String := ((literalOf l k).map (·.key)).getD ""

theorem key_literalOf {k : ℕ} (hk : IsDouble k) (positive : k ≠ 0) :
    (keyOf l k).toList = l :: '^' :: Nat.toDigits 10 k := by
  have nonzero : (Binary64.ofInt k).isZero = false := by
    rw [← Bool.not_eq_true, Binary64.isZero_iff hk]
    exact_mod_cast positive
  have whole : (Binary64.ofInt k).toRat? = some (((k : ℕ) : ℤ) : ℚ) := by
    rw [hk, Int.cast_natCast]
  have digits := Decimal.toList_plainText_intCast whole
  simp [keyOf, literalOf, positive, Literal.key, nonzero, digits, Numeral.signedChars]

theorem isEmpty_keyOf {k : ℕ} (hk : IsDouble k) : (keyOf l k).isEmpty = decide (k = 0) := by
  by_cases zero : k = 0
  · simp [zero, keyOf, literalOf]
  · have chars := key_literalOf (l := l) hk zero
    have nonempty : keyOf l k ≠ "" := by
      intro empty
      rw [empty] at chars
      cases chars
    simp [zero, nonempty]

theorem keyOf_injective {j k : ℕ} (hj : IsDouble j) (hk : IsDouble k)
    (h : keyOf l j = keyOf l k) : j = k := by
  have empty : decide (j = 0) = decide (k = 0) := by
    rw [← isEmpty_keyOf (l := l) hj, ← isEmpty_keyOf (l := l) hk, h]
  by_cases zero : j = 0
  · have : k = 0 := by simpa [zero] using empty
    omega
  · have nonzero : k ≠ 0 := by simpa [zero] using empty
    have chars := key_literalOf (l := l) hj zero
    rw [h, key_literalOf hk nonzero] at chars
    have digits : Nat.toDigits 10 k = Nat.toDigits 10 j := by simpa using chars
    rw [← Text.digitsValue_toDigits j, ← digits, Text.digitsValue_toDigits]

theorem isDouble_natExponent {t : Term} (h : t.IsIntegerIn l) : IsDouble t.natExponent :=
  isDouble_of_toRat? h.toRat?_exponent

theorem literal_eq {t : Term} (h : t.IsIntegerIn l) (positive : t.natExponent ≠ 0) :
    t.literal = literalOf l t.natExponent := by
  have value := h.toRat?_exponent
  unfold Term.exponent at value
  cases hm : t.literal with
  | none =>
    rw [hm, Option.map_none, Option.getD_none, Binary64.toRat?_zero] at value
    exact absurd (by exact_mod_cast (Option.some.inj value).symm) positive
  | some m =>
    obtain ⟨letter, label, -⟩ := h.literal m hm
    rw [hm, Option.map_some, Option.getD_some] at value
    have exponent := Binary64.eq_of_toRat? value (isDouble_natExponent h)
      (by exact_mod_cast positive)
    obtain ⟨name, e, isLabel⟩ := m
    simp only at letter label exponent
    simp [literalOf, positive, letter, label, exponent]

theorem key_eq {t : Term} (h : t.IsIntegerIn l) : t.key = keyOf l t.natExponent := by
  by_cases zero : t.natExponent = 0
  · have value := h.toRat?_exponent
    rw [zero] at value ⊢
    unfold Term.exponent at value
    cases hm : t.literal with
    | none => simp [Term.key, hm, keyOf, literalOf]
    | some m =>
      rw [hm, Option.map_some, Option.getD_some, Nat.cast_zero] at value
      have vanishes := (Binary64.isZero_iff value).mpr rfl
      simp [Term.key, hm, keyOf, literalOf, Literal.key, vanishes]
  · rw [Term.key, literal_eq h zero, keyOf]

theorem groupLiteral_eq {t : Term} (h : t.IsIntegerIn l) :
    (if t.key.isEmpty then none else t.literal) = literalOf l t.natExponent := by
  rw [key_eq h, isEmpty_keyOf (isDouble_natExponent h)]
  by_cases zero : t.natExponent = 0
  · simp [zero, literalOf]
  · simp [zero, literal_eq h zero]

/-- A term joins the groups unless its key is known. -/
def groupWith (seen : List (String × Option Literal)) (t : Term) : List (String × Option Literal) :=
  if seen.any (·.1 == t.key) then seen
  else seen ++ [(t.key, if t.key.isEmpty then none else t.literal)]

theorem groups_eq (p : Member) : p.groups = p.terms.foldl groupWith [] := rfl

/-- The groups of exponents. -/
def groupsOf (l : Char) (ks : List ℕ) : List (String × Option Literal) :=
  ks.map fun k => (keyOf l k, literalOf l k)

theorem any_groupsOf {t : Term} {ks : List ℕ} (ht : t.IsIntegerIn l) (doubles : ∀ k ∈ ks, IsDouble k) :
    (groupsOf l ks).any (·.1 == t.key) = true ↔ t.natExponent ∈ ks := by
  rw [key_eq ht]
  simp only [groupsOf, List.any_map, List.any_eq_true, Function.comp_apply, beq_iff_eq]
  constructor
  · rintro ⟨k, hk, same⟩
    rwa [← keyOf_injective (doubles k hk) (isDouble_natExponent ht) same]
  · intro hk
    exact ⟨_, hk, rfl⟩

theorem groupWith_groupsOf {t : Term} {ks : List ℕ} (ht : t.IsIntegerIn l)
    (doubles : ∀ k ∈ ks, IsDouble k) :
    groupWith (groupsOf l ks) t =
      groupsOf l (if t.natExponent ∈ ks then ks else ks ++ [t.natExponent]) := by
  rw [groupWith, groupLiteral_eq ht]
  by_cases old : t.natExponent ∈ ks
  · rw [if_pos ((any_groupsOf ht doubles).mpr old), if_pos old]
  · rw [if_neg (mt (any_groupsOf ht doubles).mp old), if_neg old, key_eq ht]
    simp [groupsOf]

/-- Going on from known exponents adds each new one once, in order of first appearance. -/
theorem exists_foldl_groupWith {ts : List Term} (h : ∀ t ∈ ts, t.IsIntegerIn l) (seen : List ℕ)
    (nodup : seen.Nodup) (doubles : ∀ k ∈ seen, IsDouble k) :
    ∃ ks : List ℕ, ks.Nodup ∧ (∀ k, k ∈ ks ↔ k ∈ seen ∨ ∃ t ∈ ts, t.natExponent = k) ∧
      ts.foldl groupWith (groupsOf l seen) = groupsOf l ks := by
  induction ts generalizing seen with
  | nil => exact ⟨seen, nodup, by simp, rfl⟩
  | cons t rest ih =>
    obtain ⟨ht, others⟩ := List.forall_mem_cons.mp h
    rw [List.foldl_cons, groupWith_groupsOf ht doubles]
    by_cases old : t.natExponent ∈ seen
    · obtain ⟨ks, nodupAll, all, folded⟩ := ih others seen nodup doubles
      rw [if_pos old]
      refine ⟨ks, nodupAll, fun k => ?_, folded⟩
      simp only [all, List.mem_cons, exists_eq_or_imp]
      constructor
      · exact Or.imp_right .inr
      · rintro (hk | rfl | hk)
        · exact .inl hk
        · exact .inl old
        · exact .inr hk
    · have nodupNext : (seen ++ [t.natExponent]).Nodup := by
        rw [← List.concat_eq_append]
        exact nodup.concat old
      have doublesNext : ∀ k ∈ seen ++ [t.natExponent], IsDouble k := by
        intro k hk
        rcases List.mem_append.mp hk with hk | hk
        · exact doubles k hk
        · rw [List.mem_singleton.mp hk]
          exact isDouble_natExponent ht
      obtain ⟨ks, nodupAll, all, folded⟩ := ih others _ nodupNext doublesNext
      rw [if_neg old]
      refine ⟨ks, nodupAll, fun k => ?_, folded⟩
      simp only [all, List.mem_append, List.mem_cons, List.not_mem_nil, or_false, exists_eq_or_imp,
        or_assoc, eq_comm (a := k)]

theorem exists_groups (h : ∀ t ∈ p.terms, t.IsIntegerIn l) :
    ∃ ks : List ℕ, ks.Nodup ∧ (∀ k, k ∈ ks ↔ ∃ t ∈ p.terms, t.natExponent = k) ∧
      p.groups = ks.map fun k => (keyOf l k, literalOf l k) := by
  obtain ⟨ks, nodup, all, folded⟩ := exists_foldl_groupWith h [] List.nodup_nil (by simp)
  exact ⟨ks, nodup, by simpa using all, folded⟩

theorem exists_simplify_terms (h : p.IsIntegerIn l) :
    ∃ ks : List ℕ, ks.Nodup ∧ (∀ k, k ∈ ks ↔ p.toPolynomial.coeff k ≠ 0) ∧
      p.simplify.terms = ks.map (termOf p.toPolynomial l) := by
  obtain ⟨ks, nodup, exponents, groups⟩ := exists_groups h.terms
  have double : ∀ k ∈ ks, IsDouble k := by
    intro k hk
    obtain ⟨t, ht, rfl⟩ := (exponents k).mp hk
    exact isDouble_natExponent (h.terms t ht)
  have sums : ∀ k ∈ ks, p.coefficientSum (keyOf l k) = .ofInt (p.toPolynomial.coeff k) := by
    intro k hk
    rw [← h.sum_like k, coefficientSum]
    congr 2
    refine List.filter_congr fun t ht => ?_
    rw [Bool.eq_iff_iff, beq_iff_eq, decide_eq_true_iff, key_eq (h.terms t ht)]
    exact ⟨keyOf_injective (isDouble_natExponent (h.terms t ht)) (double k hk), fun e => by rw [e]⟩
  refine ⟨ks.filter fun k => p.toPolynomial.coeff k ≠ 0, nodup.filter _, fun k => ?_, ?_⟩
  · simp only [List.mem_filter, decide_eq_true_eq, exponents, and_iff_right_iff_imp]
    exact exists_natExponent_of_coeff
  · have terms : ∀ k ∈ ks, Term.mk (p.coefficientSum (keyOf l k)) (literalOf l k) =
        termOf p.toPolynomial l k := by
      intro k hk
      rw [termOf, Term.ofPower_eq, ← sums k hk]
    have kept : ∀ k, (!(termOf p.toPolynomial l k).coefficient.isZero) =
        decide (p.toPolynomial.coeff k ≠ 0) := by
      intro k
      rw [termOf, Term.ofPower_eq, Bool.eq_iff_iff, Bool.not_eq_true', ← Bool.not_eq_true,
        isZero_ofInt (h.hasSmallCoefficients k), decide_eq_true_iff]
    rw [simplify, groups, List.map_map]
    refine (congrArg (List.filter _) (List.map_congr_left terms)).trans ?_
    rw [List.filter_map]
    exact congrArg (List.map (termOf p.toPolynomial l)) (List.filter_congr fun k _ => kept k)

/-- Collecting like terms and sorting leaves the canonical member. -/
theorem simplify_normalize (h : p.IsIntegerIn l) :
    p.simplify.normalize = canonicalOf p.toPolynomial l := by
  obtain ⟨ks, nodup, support, terms⟩ := exists_simplify_terms h
  have small := h.hasSmallCoefficients
  have double : ∀ k ∈ ks, IsDouble k := fun k hk => isDouble_of_coeff h.terms ((support k).mp hk)
  have integers : ∀ t ∈ p.simplify.terms, t.IsIntegerIn l := by
    intro t ht
    rw [terms, List.mem_map] at ht
    obtain ⟨k, hk, rfl⟩ := ht
    exact Term.isIntegerIn_ofPower (Binary64.toRat?_ofInt (small k)) (double k hk)
  have sorted : ks.mergeSort (descending id) = supportTo p.toPolynomial p.toPolynomial.natDegree := by
    have perm : (ks.mergeSort (descending id)).Perm
        (supportTo p.toPolynomial p.toPolynomial.natDegree) := by
      refine (List.mergeSort_perm ks _).trans ((List.perm_ext_iff_of_nodup nodup ?_).mpr fun k => ?_)
      · exact (pairwise_supportTo _ _).imp fun above => above.ne'
      · rw [support, mem_support_natDegree]
    have first : (ks.mergeSort (descending id)).Pairwise (· ≥ ·) :=
      (List.pairwise_mergeSort descending_trans descending_total ks).imp fun h => by
        simpa [descending] using h
    have second : (supportTo p.toPolynomial p.toPolynomial.natDegree).Pairwise (· ≥ ·) :=
      (pairwise_supportTo _ _).imp fun above => above.le
    exact perm.eq_of_pairwise (fun a b _ _ h h' => le_antisymm h' h) first second
  have equal : p.simplify.normalize.terms = (canonicalOf p.toPolynomial l).terms := by
    rw [normalize_terms integers, terms, terms_canonicalOf small, ← sorted, List.map_mergeSort]
    intro j hj k hk
    rw [descending, descending, termOf, termOf, Term.natExponent_ofPower (double j hj),
      Term.natExponent_ofPower (double k hk), id, id]
  exact congrArg Member.mk equal

end LikeTerms

end Member
end FunctionStudy
