import Mathlib.Algebra.MvPolynomial.Basic
import Mathlib.Algebra.Order.BigOperators.Group.Multiset
import FunctionStudy.Proofs.Member.Collected

/-! Sums of like terms. A term is a multiple of a power of a letter, or of nothing, and terms of the
same power are alike. The key of a term says just that. -/

namespace FunctionStudy

/-- A letter with an exponent above 0, or nothing for constants. -/
abbrev Power := Option (String × ℕ)

namespace Power

def key : Power → String
  | none => ""
  | some (letter, k) => letter ++ "^" ++ toString k

theorem toList_key_some (letter : String) (k : ℕ) :
    key (some (letter, k)) = String.ofList (letter.toList ++ '^' :: Nat.toDigits 10 k) := by
  apply String.toList_injective
  simp [key]

/-- The letter may hold the sign of a power, but digits do not. -/
theorem key_injective : Function.Injective key := by
  have sign : ∀ k, ∀ c ∈ (Nat.toDigits 10 k).reverse, (c != '^') = true := fun k c hc => by
    have digit := Nat.isDigit_of_mem_toDigits (by decide) le_rfl (List.mem_reverse.mp hc)
    simp only [bne_iff_ne]
    rintro rfl
    cases digit
  have digits : ∀ letter k, ((letter ++ '^' :: Nat.toDigits 10 k).reverse.takeWhile (· != '^')) =
      (Nat.toDigits 10 k).reverse := fun letter k => by
    rw [List.reverse_append, List.reverse_cons, List.append_assoc, List.takeWhile_append_of_pos (sign k)]
    simp
  rintro (_ | ⟨letter, k⟩) (_ | ⟨letter', k'⟩) same
  · rfl
  · have chars := congrArg String.toList same
    simp [key] at chars
  · have chars := congrArg String.toList same
    simp [key] at chars
  · rw [toList_key_some, toList_key_some, String.ofList_inj] at same
    have last := congrArg (fun cs => cs.reverse.takeWhile (· != '^')) same
    simp only [digits, List.reverse_inj] at last
    obtain rfl : k = k' := by rw [← Text.digitsValue_toDigits k, last, Text.digitsValue_toDigits]
    rw [String.toList_injective (List.append_cancel_right same)]

end Power

namespace Term

variable {t : Term}

/-- An integer coefficient and a natural exponent, of whatever letter. -/
structure IsInteger (t : Term) : Prop where
  coefficient : ∃ z : ℤ, t.coefficient.toRat? = some (z : ℚ)
  exponent : ∃ k : ℕ, t.exponent.toRat? = some (k : ℚ)

theorem IsInteger.toRat?_coefficient (h : t.IsInteger) : t.coefficient.toRat? = some (t.intCoefficient : ℚ) := by
  obtain ⟨z, hz⟩ := h.coefficient
  rw [hz, intCoefficient, Binary64.toRat_eq hz, Rat.num_intCast]

theorem IsInteger.toRat?_exponent (h : t.IsInteger) : t.exponent.toRat? = some (t.natExponent : ℚ) := by
  obtain ⟨k, hk⟩ := h.exponent
  rw [hk, natExponent_eq hk]

/-- What a term is a multiple of. Exponent 0 belongs to the constants. -/
def power (t : Term) : Power :=
  if t.natExponent = 0 then none else t.literal.map fun l => (l.letter, t.natExponent)

theorem IsInteger.key_eq (h : t.IsInteger) : t.key = t.power.key := by
  have value := h.toRat?_exponent
  obtain ⟨c, literal⟩ := t
  cases literal with
  | none =>
    unfold power
    split_ifs <;> rfl
  | some l =>
    have whole : l.exponent.toRat? = some (((Term.natExponent ⟨c, some l⟩ : ℕ) : ℤ) : ℚ) := by exact_mod_cast value
    have zero : l.exponent.isZero = decide (Term.natExponent ⟨c, some l⟩ = 0) :=
      Bool.eq_iff_iff.mpr ((Binary64.isZero_iff whole).trans (by simp))
    have key : Term.key ⟨c, some l⟩ = l.key := rfl
    rw [key, Literal.key, zero, power]
    by_cases none : Term.natExponent ⟨c, some l⟩ = 0
    · simp [none, Power.key]
    · have digits : Decimal.plainText l.exponent = toString (Term.natExponent ⟨c, some l⟩) := by
        apply String.toList_injective
        rw [Decimal.toList_plainText_intCast whole]
        simp [Numeral.signedChars]
      simp [none, Power.key, digits]

end Term

namespace Member

/-- The coefficients of a power, in order. -/
def coefficientsOf (p : Member) (w : Power) : List ℤ :=
  (p.terms.filter fun t => t.power = w).map Term.intCoefficient

def sumOf (p : Member) (w : Power) : ℤ := (p.coefficientsOf w).sum

/-- Integer coefficients and natural exponents. Adding the coefficients of a power in their order stays among the
integers that doubles hold exactly. -/
structure IsInteger (p : Member) : Prop where
  terms : ∀ t ∈ p.terms, t.IsInteger
  sums : ∀ w s, s <+: p.coefficientsOf w → |s.sum| ≤ 2 ^ 53

variable {p q : Member} {w : Power}

theorem IsInteger.abs_sumOf_le (h : p.IsInteger) (w : Power) : |p.sumOf w| ≤ 2 ^ 53 :=
  h.sums w _ List.prefix_rfl

theorem IsInteger.of_isIntegral
    (integral : ∀ t ∈ p.terms, t.coefficient.isIntegral = true ∧ t.exponent.isIntegral = true ∧
      t.exponent.lt .zero = false)
    (small : (p.terms.map fun t => |t.intCoefficient|).sum ≤ 2 ^ 53) : p.IsInteger where
  terms t ht := by
    obtain ⟨coefficient, exponent, nonneg⟩ := integral t ht
    exact ⟨Binary64.exists_intCast coefficient, Binary64.exists_natCast (by simp [nonneg]) exponent⟩
  sums w s hs := by
    have parts : ((p.coefficientsOf w).map abs).Sublist (p.terms.map fun t => |t.intCoefficient|) := by
      rw [coefficientsOf, List.map_map]
      exact List.filter_sublist.map _
    have total := Multiset.abs_sum_le_sum_abs (s := (s : Multiset ℤ))
    rw [Multiset.sum_coe, Multiset.map_coe, Multiset.sum_coe] at total
    calc |s.sum| ≤ (s.map abs).sum := total
      _ ≤ (p.terms.map fun t => |t.intCoefficient|).sum :=
        ((hs.sublist.map abs).trans parts).sum_le_sum (List.forall_mem_map.mpr fun t _ => abs_nonneg _)
      _ ≤ 2 ^ 53 := small

theorem exists_power_of_sumOf (h : p.sumOf w ≠ 0) : ∃ t ∈ p.terms, t.power = w := by
  by_contra none
  apply h
  have empty : p.coefficientsOf w = [] := by
    rw [coefficientsOf, List.map_eq_nil_iff, List.filter_eq_nil_iff]
    intro t ht same
    exact none ⟨t, ht, by simpa using same⟩
  rw [sumOf, empty, List.sum_nil]

theorem IsInteger.coefficientSum_key (h : p.IsInteger) (w : Power) :
    p.coefficientSum w.key = .ofInt (p.sumOf w) := by
  have alike : p.terms.filter (fun t => t.key == w.key) = p.terms.filter fun t => t.power = w := by
    refine List.filter_congr fun t ht => ?_
    rw [Bool.eq_iff_iff, beq_iff_eq, decide_eq_true_iff, (h.terms t ht).key_eq, Power.key_injective.eq_iff]
  rw [coefficientSum, alike]
  refine sum_ofInt (List.forall₂_map_left_iff.mpr (List.forall₂_map_right_iff.mpr ?_)) (h.sums w)
  exact List.forall₂_same.mpr fun t ht => (h.terms t (List.mem_of_mem_filter ht)).toRat?_coefficient

section Canonical

variable {key : String}

/-- The keys and sums of the collected terms, in order of first appearance. -/
def entries (p : Member) : List (String × Binary64) := p.simplify.terms.map fun t => (t.key, t.coefficient)

theorem mem_keys_foldl {ts : List Term} {gs : List (String × Option Literal)} :
    key ∈ (ts.foldl groupWith gs).map Prod.fst ↔ key ∈ gs.map Prod.fst ∨ ∃ t ∈ ts, t.key = key := by
  induction ts generalizing gs with
  | nil => simp
  | cons t rest ih =>
    simp only [List.foldl_cons, ih, List.mem_cons, exists_eq_or_imp]
    by_cases known : gs.any (·.1 == t.key) = true
    · obtain ⟨g, hg, same⟩ := List.any_eq_true.mp known
      have old : t.key ∈ gs.map Prod.fst := List.mem_map.mpr ⟨g, hg, beq_iff_eq.mp same⟩
      rw [groupWith, if_pos known]
      exact ⟨Or.imp_right .inr, fun found => found.elim .inl (Or.elim · (fun same => .inl (same ▸ old)) .inr)⟩
    · rw [groupWith, if_neg known, List.map_append, List.mem_append, List.map_singleton, List.mem_singleton,
        or_assoc, eq_comm (a := key)]
theorem mem_keys_groups : key ∈ p.groups.map Prod.fst ↔ ∃ t ∈ p.terms, t.key = key := by
  rw [groups_eq, mem_keys_foldl]
  simp

theorem key_of_group {g : String × Option Literal} (hg : g ∈ p.groups) (c : Binary64) :
    Term.key ⟨c, g.2⟩ = g.1 := by
  obtain ⟨key, literal⟩ := g
  have known := p.isGrouping_groups.literals _ hg
  cases literal with
  | none => exact known.symm
  | some l => exact known.1.symm

theorem entries_eq (p : Member) : p.entries =
    ((p.groups.map Prod.fst).map fun key => (key, p.coefficientSum key)).filter fun e => !e.2.isZero := by
  rw [entries, simplify, List.map_map, List.filter_map, List.map_map, List.filter_map]
  refine List.map_congr_left fun g hg => ?_
  exact congrArg (·, _) (key_of_group (List.mem_of_mem_filter hg) _)

theorem nodup_entries (p : Member) : (p.entries.map Prod.fst).Nodup := by
  have keys : p.entries.map Prod.fst =
      (p.groups.map Prod.fst).filter fun key => !(p.coefficientSum key).isZero := by
    rw [entries_eq, List.filter_map, List.map_map]
    exact List.map_id _
  rw [keys]
  exact p.isGrouping_groups.distinct.filter _

theorem IsInteger.mem_entries (h : p.IsInteger) {e : String × Binary64} :
    e ∈ p.entries ↔ ∃ w : Power, p.sumOf w ≠ 0 ∧ e = (w.key, .ofInt (p.sumOf w)) := by
  have zero : ∀ w : Power, (!(Binary64.ofInt (p.sumOf w)).isZero) = true ↔ p.sumOf w ≠ 0 := fun w => by
    rw [Bool.not_eq_true', ← Bool.not_eq_true, isZero_ofInt (h.abs_sumOf_le w)]
  rw [entries_eq, List.mem_filter, List.mem_map]
  constructor
  · rintro ⟨⟨key, hkey, rfl⟩, kept⟩
    obtain ⟨t, ht, rfl⟩ := mem_keys_groups.mp hkey
    rw [(h.terms t ht).key_eq, h.coefficientSum_key, zero] at kept
    exact ⟨t.power, kept, by rw [(h.terms t ht).key_eq, h.coefficientSum_key]⟩
  · rintro ⟨w, some, rfl⟩
    obtain ⟨t, ht, rfl⟩ := exists_power_of_sumOf some
    refine ⟨⟨t.power.key, mem_keys_groups.mpr ⟨t, ht, (h.terms t ht).key_eq⟩, ?_⟩, (zero _).mpr some⟩
    rw [h.coefficientSum_key]

theorem canonical_eq (p : Member) : p.canonical = p.entries.mergeSort fun a b => a.1 ≤ b.1 := rfl

theorem mem_canonical {e : String × Binary64} : e ∈ p.canonical ↔ e ∈ p.entries := List.mem_mergeSort

/-- Sorting by keys forgets the order of the entries and nothing else. -/
theorem canonical_eq_iff : p.canonical = q.canonical ↔ ∀ e, e ∈ p.entries ↔ e ∈ q.entries := by
  constructor
  · intro same e
    rw [← mem_canonical, same, mem_canonical]
  · intro same
    have perm : p.canonical.Perm q.canonical := by
      refine (List.mergeSort_perm _ _).trans (.trans ?_ (List.mergeSort_perm _ _).symm)
      exact (List.perm_ext_iff_of_nodup p.nodup_entries.of_map q.nodup_entries.of_map).mpr same
    have sorted : ∀ r : Member, r.canonical.Pairwise fun a b => a.1 ≤ b.1 := fun r => by
      refine (List.pairwise_mergeSort (fun a b c => ?_) (fun a b => ?_) r.entries).imp of_decide_eq_true
      · simpa using fun ab bc => String.le_trans ab bc
      · simpa using String.le_total a.1 b.1
    have unique : ∀ a ∈ p.canonical, ∀ b ∈ q.canonical, a.1 = b.1 → a = b := fun a ha b hb key =>
      List.inj_on_of_nodup_map p.nodup_entries (mem_canonical.mp ha) ((same b).mpr (mem_canonical.mp hb)) key
    exact perm.eq_of_pairwise
      (fun a b ha hb ab ba => unique a ha b hb (String.le_antisymm ab ba)) (sorted p) (sorted q)

theorem IsInteger.canonical_eq_iff (hp : p.IsInteger) (hq : q.IsInteger) :
    p.canonical = q.canonical ↔ ∀ w, p.sumOf w = q.sumOf w := by
  rw [Member.canonical_eq_iff]
  constructor
  · -- A sum that is not 0 is found again under its key; so either both sums are 0 or both are found.
    have found : ∀ {p q : Member}, p.IsInteger → q.IsInteger → (∀ e, e ∈ p.entries → e ∈ q.entries) →
        ∀ w, p.sumOf w ≠ 0 → p.sumOf w = q.sumOf w := fun {p q} hp hq same w some => by
      obtain ⟨v, -, entry⟩ := hq.mem_entries.mp (same _ (hp.mem_entries.mpr ⟨w, some, rfl⟩))
      obtain ⟨key, value⟩ := Prod.mk.inj entry
      obtain rfl := Power.key_injective key
      have numbers := congrArg Binary64.toRat? value
      rw [Binary64.toRat?_ofInt (hp.abs_sumOf_le w), Binary64.toRat?_ofInt (hq.abs_sumOf_le w)] at numbers
      exact_mod_cast Option.some.inj numbers
    intro same w
    by_cases none : p.sumOf w = 0
    · by_contra other
      exact other (found hq hp (fun e he => (same e).mpr he) w fun zero => other (none.trans zero.symm)).symm
    · exact found hp hq (fun e he => (same e).mp he) w none
  · intro sums e
    rw [hp.mem_entries, hq.mem_entries]
    simp only [sums]

theorem IsInteger.sameCanonical_iff (hp : p.IsInteger) (hq : q.IsInteger) :
    p.sameCanonical q = true ↔ p.canonical = q.canonical := by
  have integer : ∀ {r : Member}, r.IsInteger → ∀ e ∈ r.canonical, e.2.IsUnsigned := fun {r} hr e he => by
    obtain ⟨w, -, rfl⟩ := hr.mem_entries.mp (mem_canonical.mp he)
    exact Binary64.isUnsigned_ofInt (hr.abs_sumOf_le w)
  have pairs : p.sameCanonical q = true ↔ p.canonical.length = q.canonical.length ∧
      ∀ a b, (a, b) ∈ p.canonical.zip q.canonical → a.1 = b.1 ∧ a.2.same b.2 = true := by
    simp [sameCanonical]
  rw [pairs, ← List.forall₂_eq_eq_eq, List.forall₂_iff_zip]
  refine and_congr_right fun _ => forall₂_congr fun a b => forall_congr' fun both => ?_
  obtain ⟨ha, hb⟩ := List.of_mem_zip both
  have first := integer hp a ha
  have second := integer hq b hb
  rw [Binary64.same_iff_toRat first.isFinite second.isFinite]
  constructor
  · rintro ⟨key, value⟩
    exact Prod.ext key (first.eq_of_toRat second value)
  · rintro rfl
    exact ⟨rfl, rfl⟩

end Canonical

end Member

section Polynomials

open MvPolynomial (C X monomial)

namespace Power

/-- Terms have no power of exponent 0. -/
def IsProper : Power → Prop
  | none => True
  | some (_, k) => k ≠ 0

noncomputable def exponents : Power → String →₀ ℕ
  | none => 0
  | some (letter, k) => Finsupp.single letter k

theorem IsProper.exponents_inj {v w : Power} (hv : v.IsProper) (hw : w.IsProper) :
    v.exponents = w.exponents ↔ v = w := by
  refine ⟨fun same => ?_, fun same => same ▸ rfl⟩
  rcases v with _ | ⟨letter, j⟩ <;> rcases w with _ | ⟨letter', k⟩
  · rfl
  · exact absurd (Finsupp.single_eq_zero.mp same.symm) hw
  · exact absurd (Finsupp.single_eq_zero.mp same) hv
  · rcases Finsupp.single_eq_single_iff _ _ _ _ |>.mp same with ⟨rfl, rfl⟩ | ⟨zero, -⟩
    · rfl
    · exact absurd zero hv

end Power

namespace Term

theorem isProper_power (t : Term) : t.power.IsProper := by
  unfold power
  split_ifs with zero
  · trivial
  · cases t.literal with
    | none => trivial
    | some l => exact zero

/-- The term as a polynomial in all letters. -/
noncomputable def toMvPolynomial (t : Term) : MvPolynomial String ℤ :=
  C t.intCoefficient * t.literal.elim 1 fun l => X l.letter ^ t.natExponent

theorem toMvPolynomial_eq (t : Term) : t.toMvPolynomial = monomial t.power.exponents t.intCoefficient := by
  obtain ⟨c, literal⟩ := t
  unfold toMvPolynomial power
  cases literal with
  | none => simp [Power.exponents]
  | some l =>
    by_cases zero : natExponent ⟨c, some l⟩ = 0
    · simp [zero, Power.exponents]
    · rw [if_neg zero, Option.elim_some, Option.map_some, MvPolynomial.C_mul_X_pow_eq_monomial, Power.exponents]

end Term

namespace Member

/-- The polynomial that the terms add up to, in all letters. -/
noncomputable def toMvPolynomial (p : Member) : MvPolynomial String ℤ := (p.terms.map Term.toMvPolynomial).sum

variable {p q : Member} {w : Power}

theorem coeff_toMvPolynomial (p : Member) (proper : w.IsProper) :
    p.toMvPolynomial.coeff w.exponents = p.sumOf w := by
  unfold toMvPolynomial sumOf coefficientsOf
  induction p.terms with
  | nil => simp
  | cons t rest ih =>
    rw [List.map_cons, List.sum_cons, MvPolynomial.coeff_add, ih, Term.toMvPolynomial_eq,
      MvPolynomial.coeff_monomial]
    simp only [t.isProper_power.exponents_inj proper]
    by_cases alike : t.power = w <;> simp [alike]

theorem coeff_toMvPolynomial_eq_zero {m : String →₀ ℕ} (other : ∀ w : Power, w.IsProper → w.exponents ≠ m) :
    p.toMvPolynomial.coeff m = 0 := by
  unfold toMvPolynomial
  induction p.terms with
  | nil => simp
  | cons t rest ih =>
    rw [List.map_cons, List.sum_cons, MvPolynomial.coeff_add, ih, Term.toMvPolynomial_eq,
      MvPolynomial.coeff_monomial, if_neg (other _ t.isProper_power), add_zero]

theorem sumOf_eq_zero_of_not_isProper (improper : ¬ w.IsProper) : p.sumOf w = 0 := by
  by_contra some
  obtain ⟨t, -, rfl⟩ := exists_power_of_sumOf some
  exact improper t.isProper_power

theorem toMvPolynomial_inj : p.toMvPolynomial = q.toMvPolynomial ↔ ∀ w, p.sumOf w = q.sumOf w := by
  constructor
  · intro same w
    by_cases proper : w.IsProper
    · rw [← p.coeff_toMvPolynomial proper, same, q.coeff_toMvPolynomial proper]
    · rw [sumOf_eq_zero_of_not_isProper proper, sumOf_eq_zero_of_not_isProper proper]
  · intro same
    ext m
    by_cases some : ∃ w : Power, w.IsProper ∧ w.exponents = m
    · obtain ⟨w, proper, rfl⟩ := some
      rw [p.coeff_toMvPolynomial proper, q.coeff_toMvPolynomial proper, same]
    · have other : ∀ w : Power, w.IsProper → w.exponents ≠ m := fun w proper same => some ⟨w, proper, same⟩
      rw [coeff_toMvPolynomial_eq_zero other, coeff_toMvPolynomial_eq_zero other]

/-- Members with integer coefficients are canonically the same if they denote one polynomial. -/
theorem IsInteger.sameCanonical_iff_toMvPolynomial (hp : p.IsInteger) (hq : q.IsInteger) :
    p.sameCanonical q = true ↔ p.toMvPolynomial = q.toMvPolynomial := by
  rw [hp.sameCanonical_iff hq, hp.canonical_eq_iff hq, toMvPolynomial_inj]

end Member

end Polynomials

end FunctionStudy
