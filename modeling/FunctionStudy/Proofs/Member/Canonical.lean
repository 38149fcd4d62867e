import FunctionStudy.Proofs.Member.Dense

/-! The canonical member of a polynomial. The member of the dense coefficients has one term for each
nonzero coefficient, in descending order, and denotes the polynomial. -/

namespace FunctionStudy

open Polynomial

/-- An integer polynomial whose coefficients and exponents doubles hold exactly. -/
structure IsRepresentable (P : ℤ[X]) : Prop where
  small : HasSmallCoefficients P
  exponents : ∀ k, P.coeff k ≠ 0 → IsDouble k

/-- The member of all coefficients. -/
noncomputable def Member.canonicalOf (P : ℤ[X]) (l : Char) : Member :=
  Member.ofCoefficients (dense P) (String.singleton l)

/-- The exponents with a coefficient, descending. -/
noncomputable def supportTo (P : ℤ[X]) (d : ℕ) : List ℕ :=
  (List.range (d + 1)).reverse.filter fun k => P.coeff k ≠ 0

namespace Term

def literalOf (l : Char) (k : ℕ) : Option Literal :=
  if k = 0 then none else some { letter := String.singleton l, exponent := .ofInt k }

theorem ofPower_eq (l : Char) (c : Binary64) (k : ℕ) :
    ofPower (String.singleton l) c k = ⟨c, literalOf l k⟩ := by
  unfold ofPower literalOf
  split_ifs <;> rfl

variable {l : Char} {z : ℤ} {k : ℕ}

theorem isIntegerIn_literalOf {c : Binary64} (hc : c.toRat? = some (z : ℚ)) (hk : IsDouble k) :
    (Term.mk c (literalOf l k)).IsIntegerIn l := by
  constructor
  · exact ⟨z, hc⟩
  · intro m hm
    unfold literalOf at hm
    split_ifs at hm with zero
    · simp at hm
    · obtain rfl : _ = m := Option.some.inj (Option.mem_def.mp hm)
      exact ⟨rfl, rfl, k, hk⟩

theorem isIntegerIn_ofPower {c : Binary64} (hc : c.toRat? = some (z : ℚ)) (hk : IsDouble k) :
    (ofPower (String.singleton l) c k).IsIntegerIn l := by
  rw [ofPower_eq]
  exact isIntegerIn_literalOf hc hk

theorem toRat?_exponent_literalOf (hk : IsDouble k) (c : Binary64) :
    (Term.mk c (literalOf l k)).exponent.toRat? = some (k : ℚ) := by
  rw [← ofPower_eq]
  exact toRat?_exponent_ofPower _ c hk

theorem natExponent_ofPower {letter : String} (hk : IsDouble k) (c : Binary64) :
    (ofPower letter c k).natExponent = k :=
  natExponent_eq (toRat?_exponent_ofPower letter c hk)

theorem intCoefficient_ofPower (small : |z| ≤ 2 ^ 53) :
    (ofPower (String.singleton l) (.ofInt z) k).intCoefficient = z := by
  rw [ofPower_eq, intCoefficient, Binary64.toRat_eq (Binary64.toRat?_ofInt small), Rat.num_intCast]

end Term

variable {P : ℤ[X]} {l : Char}

/-- The term of a coefficient of the polynomial. -/
noncomputable def termOf (P : ℤ[X]) (l : Char) (k : ℕ) : Term :=
  .ofPower (String.singleton l) (.ofInt (P.coeff k)) k

theorem terms_denseTo (small : HasSmallCoefficients P) (d : ℕ) :
    (Member.ofCoefficients (denseTo P d) (String.singleton l)).terms =
      (supportTo P d).map (termOf P l) := by
  have kept : supportTo P d = (List.range (d + 1)).reverse.filter fun k => !(Binary64.ofInt (P.coeff k)).isZero := by
    refine List.filter_congr fun k _ => ?_
    rw [Bool.eq_iff_iff, decide_eq_true_iff, Bool.not_eq_true', ← Bool.not_eq_true, isZero_ofInt (small k)]
  rw [kept]
  exact Member.terms_ofCoefficients_range _ _ _

theorem mem_supportTo {d k : ℕ} : k ∈ supportTo P d ↔ k ≤ d ∧ P.coeff k ≠ 0 := by
  simp [supportTo]

theorem mem_support_natDegree {k : ℕ} : k ∈ supportTo P P.natDegree ↔ P.coeff k ≠ 0 :=
  mem_supportTo.trans ⟨fun h => h.2, fun h => ⟨le_natDegree_of_ne_zero h, h⟩⟩

theorem pairwise_supportTo (P : ℤ[X]) (d : ℕ) : (supportTo P d).Pairwise (· > ·) :=
  (List.pairwise_reverse.mpr List.pairwise_lt_range).filter _

namespace Member

theorem terms_canonicalOf (small : HasSmallCoefficients P) :
    (canonicalOf P l).terms = (supportTo P P.natDegree).map (termOf P l) :=
  terms_denseTo small _

theorem likeCoefficients_canonicalOf (h : IsRepresentable P) (k : ℕ) :
    (canonicalOf P l).likeCoefficients k = if P.coeff k = 0 then [] else [P.coeff k] := by
  have exponent : ∀ j ∈ supportTo P P.natDegree, (termOf P l j).natExponent = j := fun j hj =>
    Term.natExponent_ofPower (h.exponents j (mem_support_natDegree.mp hj)) _
  have like : (supportTo P P.natDegree).filter (fun j => (termOf P l j).natExponent = k) =
      if P.coeff k = 0 then [] else [k] := by
    rw [List.filter_congr fun j hj => by rw [exponent j hj]]
    have once : (supportTo P P.natDegree).Nodup :=
      (pairwise_supportTo P P.natDegree).imp fun h => h.ne'
    rw [List.filter_eq, once.count]
    simp only [mem_support_natDegree]
    by_cases zero : P.coeff k = 0 <;> simp [zero]
  rw [likeCoefficients, terms_canonicalOf h.small, List.filter_map, List.map_map]
  change ((supportTo P P.natDegree).filter fun j => (termOf P l j).natExponent = k).map _ = _
  rw [like]
  split_ifs
  · rfl
  · simp [termOf, Term.intCoefficient_ofPower (h.small k)]

theorem toPolynomial_canonicalOf (h : IsRepresentable P) :
    (canonicalOf P l).toPolynomial = P := by
  ext k
  rw [coeff_toPolynomial, likeCoefficients_canonicalOf h]
  split_ifs with zero <;> simp [zero]

theorem isIntegerIn_canonicalOf (h : IsRepresentable P) : (canonicalOf P l).IsIntegerIn l where
  terms t ht := by
    rw [terms_canonicalOf h.small, List.mem_map] at ht
    obtain ⟨k, hk, rfl⟩ := ht
    exact Term.isIntegerIn_ofPower (Binary64.toRat?_ofInt (h.small k)) (h.exponents k (mem_support_natDegree.mp hk))
  sums k s hs := by
    rw [likeCoefficients_canonicalOf h] at hs
    split_ifs at hs with zero
    · simp [List.prefix_nil.mp hs]
    · rcases List.prefix_cons_iff.mp hs with rfl | ⟨t, rfl, ht⟩
      · simp
      · simpa [List.prefix_nil.mp ht] using h.small k

theorem writtenDegree_canonicalOf (h : IsRepresentable P) :
    (canonicalOf P l).writtenDegree = P.natDegree := by
  apply le_antisymm
  · refine foldl_max_le (Nat.zero_le _) fun j hj => ?_
    obtain ⟨t, ht, rfl⟩ := List.mem_map.mp hj
    rw [terms_canonicalOf h.small, List.mem_map] at ht
    obtain ⟨k, hk, rfl⟩ := ht
    rw [termOf, Term.natExponent_ofPower (h.exponents k (mem_support_natDegree.mp hk))]
    exact (mem_supportTo.mp hk).1
  · have least := natDegree_le_writtenDegree (canonicalOf P l)
    rwa [toPolynomial_canonicalOf h] at least

end Member
end FunctionStudy
