import FunctionStudy.Proofs.Member.LikeTerms
import FunctionStudy.Proofs.Member.OneLetter

/-! Like terms as a normal form. Collecting like terms leaves the keys in the order in which they
first appear, each with a coefficient. There is nothing left to collect then, whatever the letters
and the coefficients are. -/

namespace FunctionStudy

namespace Member

variable {p q : Member} {ts : List Term} {t : Term}

section Groups

variable {gs : List (String × Option Literal)}

theorem any_key_eq (gs : List (String × Option Literal)) (key : String) :
    gs.any (·.1 == key) = decide (key ∈ gs.map Prod.fst) := by
  rw [Bool.eq_iff_iff, List.any_eq_true, decide_eq_true_iff, List.mem_map]
  simp

theorem keys_groups (p : Member) : p.groups.map Prod.fst = (p.terms.map Term.key).eraseDups := by
  obtain ⟨ts⟩ := p
  rw [groups_eq]
  induction ts using List.reverseRecOn with
  | nil => rfl
  | append_singleton ts t ih =>
    have last : [t.key].removeAll (ts.map Term.key) = if t.key ∈ ts.map Term.key then [] else [t.key] := by
      rw [List.removeAll, List.filter_singleton]
      simp
    rw [List.foldl_append, List.foldl_cons, List.foldl_nil, groupWith, any_key_eq, ih, List.map_append,
      List.eraseDups_append, List.map_singleton, last]
    by_cases old : t.key ∈ ts.map Term.key
    · rw [if_pos (decide_eq_true (List.mem_eraseDups.mpr old)), if_pos old, ih]
      exact (List.append_nil _).symm
    · rw [if_neg (by simpa using old), if_neg old, List.map_append, ih]
      rfl

theorem groups_of_nodup (distinct : (ts.map Term.key).Nodup) :
    groups ⟨ts⟩ = ts.map fun t => (t.key, if t.key.isEmpty then none else t.literal) := by
  rw [groups_eq]
  induction ts using List.reverseRecOn with
  | nil => rfl
  | append_singleton ts t ih =>
    rw [List.map_append, List.map_singleton, List.nodup_append_comm, List.singleton_append, List.nodup_cons] at distinct
    rw [List.foldl_append, List.foldl_cons, List.foldl_nil, ih distinct.2, groupWith, if_neg, List.map_append,
      List.map_singleton]
    rw [any_key_eq, List.map_map, decide_eq_true_iff]
    exact distinct.1

theorem coefficientSum_of_nodup (distinct : (ts.map Term.key).Nodup) (ht : t ∈ ts)
    (kept : t.coefficient.isZero = false) : coefficientSum ⟨ts⟩ t.key = t.coefficient := by
  have own : ts.filter (fun u => u.key == t.key) = [t] := by
    have same : ts.filter (fun u => u.key == t.key) = ts.filter (· = t) := List.filter_congr fun u hu => by
      rw [Bool.eq_iff_iff, beq_iff_eq, decide_eq_true_iff]
      exact ⟨List.inj_on_of_nodup_map distinct hu ht, congrArg Term.key⟩
    rw [same, List.filter_eq, List.count_eq_one_of_mem distinct.of_map ht]
    rfl
  rw [coefficientSum, own]
  exact Binary64.zero_add_of_isZero_eq_false kept

theorem simplify_eq_self (distinct : (p.terms.map Term.key).Nodup)
    (kept : ∀ t ∈ p.terms, t.coefficient.isZero = false)
    (literals : ∀ t ∈ p.terms, (if t.key.isEmpty then none else t.literal) = t.literal) : p.simplify = p := by
  obtain ⟨ts⟩ := p
  have groups : groups ⟨ts⟩ = ts.map fun t => (t.key, t.literal) :=
    (groups_of_nodup distinct).trans (List.map_congr_left fun t ht => congrArg (t.key, ·) (literals t ht))
  have sums : ∀ t ∈ ts, Term.mk (coefficientSum ⟨ts⟩ t.key) t.literal = t := fun t ht => by
    rw [coefficientSum_of_nodup distinct ht (kept t ht)]
  have terms : (Member.groups ⟨ts⟩ |>.map fun g => Term.mk (coefficientSum ⟨ts⟩ g.1) g.2) = ts := by
    rw [groups, List.map_map]
    exact (List.map_congr_left sums).trans (List.map_id' _)
  have nonzero : ts.filter (fun t => !t.coefficient.isZero) = ts :=
    List.filter_eq_self.mpr fun t ht => by rw [kept t ht, Bool.not_false]
  exact congrArg Member.mk ((congrArg (List.filter _) terms).trans nonzero)

end Groups

section Collected

theorem nodup_keys_simplify (p : Member) : (p.simplify.terms.map Term.key).Nodup := by
  have keys := p.nodup_entries
  rwa [entries, List.map_map] at keys

/-- The keys in order of first appearance, where their sums do not vanish. -/
theorem keys_simplify (p : Member) : p.simplify.terms.map Term.key =
    (p.terms.map Term.key).eraseDups.filter fun key => !(p.coefficientSum key).isZero := by
  have keys := congrArg (List.map Prod.fst) p.entries_eq
  rw [entries, List.map_map, List.filter_map, List.map_map, keys_groups] at keys
  exact keys.trans (List.map_id _)

theorem isZero_of_mem_simplify (ht : t ∈ p.simplify.terms) : t.coefficient.isZero = false := by
  simpa using (List.mem_filter.mp ht).2

theorem literal_of_mem_simplify (ht : t ∈ p.simplify.terms) :
    (if t.key.isEmpty then none else t.literal) = t.literal := by
  obtain ⟨⟨key, literal⟩, hg, rfl⟩ := List.mem_map.mp (List.mem_of_mem_filter ht)
  cases literal with
  | none => exact ite_self _
  | some l =>
    have own : Term.key ⟨p.coefficientSum key, some l⟩ = l.key := rfl
    rw [own, l.isEmpty_key, (p.isGrouping_groups.literals _ hg).2]
    rfl

theorem simplify_simplify (p : Member) : p.simplify.simplify = p.simplify :=
  simplify_eq_self p.nodup_keys_simplify (fun _ => isZero_of_mem_simplify) fun _ => literal_of_mem_simplify

theorem canonical_simplify (p : Member) : p.simplify.canonical = p.canonical := by
  rw [canonical_eq, canonical_eq, entries, simplify_simplify, entries]

end Collected

section Sums

/-- Only constants and exponents from 1 on have terms. -/
theorem sumOf_eq_iff : (∀ w, p.sumOf w = q.sumOf w) ↔
    (∀ letter k, 1 ≤ k → p.sumOf (some (letter, k)) = q.sumOf (some (letter, k))) ∧ p.sumOf none = q.sumOf none := by
  refine ⟨fun same => ⟨fun letter k _ => same _, same none⟩, fun ⟨powers, constants⟩ w => ?_⟩
  rcases w with _ | ⟨letter, k⟩
  · exact constants
  · rcases Nat.eq_zero_or_pos k with rfl | positive
    · have improper : ¬ Power.IsProper (some (letter, 0)) := fun proper => proper rfl
      rw [sumOf_eq_zero_of_not_isProper improper, sumOf_eq_zero_of_not_isProper improper]
    · exact powers letter k positive

theorem IsInteger.sameCanonical_iff_sumOf (hp : p.IsInteger) (hq : q.IsInteger) :
    p.sameCanonical q = true ↔ ∀ w, p.sumOf w = q.sumOf w :=
  (hp.sameCanonical_iff hq).trans (hp.canonical_eq_iff hq)

theorem coefficientsOf_eq (p : Member) (w : Power) : p.coefficientsOf w =
    ((p.terms.map fun t => (t.power, t.intCoefficient)).filter fun e => e.1 = w).map Prod.snd := by
  rw [coefficientsOf, List.filter_map, List.map_map]
  rfl

/-- The canonical form of a member with integer coefficients says the sum of each power and nothing else. Collecting
like terms does not change it. Of each key that has a sum one term is left, in the order of first appearance, and
collecting again changes nothing. -/
theorem canonical_identity (hp : p.IsInteger) (hq : q.IsInteger) :
    (p.sameCanonical q = true ↔
      (∀ letter k, 1 ≤ k → p.sumOf (some (letter, k)) = q.sumOf (some (letter, k))) ∧
        p.sumOf none = q.sumOf none) ∧
    (p.canonical = q.canonical ↔ p.sameCanonical q = true) ∧
    p.simplify.canonical = p.canonical ∧
    (p.simplify.terms.map Term.key).Nodup ∧
    (p.simplify.terms.map Term.key =
      (p.terms.map Term.key).eraseDups.filter fun key => !(p.coefficientSum key).isZero) ∧
    (∀ t ∈ p.simplify.terms, t.coefficient.isZero = false) ∧
    p.simplify.simplify = p.simplify :=
  ⟨(hp.sameCanonical_iff_sumOf hq).trans sumOf_eq_iff, (hp.sameCanonical_iff hq).symm, p.canonical_simplify,
    p.nodup_keys_simplify, p.keys_simplify, fun _ => isZero_of_mem_simplify, p.simplify_simplify⟩

/-- Terms of two letters in another order, one split in two, one that vanishes, and `x^0` for a constant. -/
theorem canonical_identity_reordered : ∃ p q, parse "x+2t^2+x^0-3x+t-t" = .ok p ∧ parse "2t^2-2+3-2x" = .ok q ∧
    p.sameCanonical q = true ∧ p.simplify.simplify = p.simplify ∧
    p.simplify.terms.map Term.key = ["x^1", "t^2", ""] := by
  let power (a : ℤ) (letter : String) (k : ℤ) : Term := ⟨.ofInt a, some { letter, exponent := .ofInt k }⟩
  let p : Member := ⟨[power 1 "x" 1, power 2 "t" 2, power 1 "x" 0, power (-3) "x" 1, power 1 "t" 1, power (-1) "t" 1]⟩
  let q : Member := ⟨[power 2 "t" 2, .constant (.ofInt (-2)), .constant (.ofInt 3), power (-2) "x" 1]⟩
  have hp : p.IsInteger := .of_isIntegral (by decide +kernel) (by decide +kernel)
  have hq : q.IsInteger := .of_isIntegral (by decide +kernel) (by decide +kernel)
  have termsP : p.terms.map (fun t => (t.power, t.intCoefficient)) =
      [(some ("x", 1), 1), (some ("t", 2), 2), (none, 1), (some ("x", 1), -3), (some ("t", 1), 1),
        (some ("t", 1), -1)] := by decide +kernel
  have termsQ : q.terms.map (fun t => (t.power, t.intCoefficient)) =
      [(some ("t", 2), 2), (none, -2), (none, 3), (some ("x", 1), -2)] := by decide +kernel
  have sums : ∀ w, p.sumOf w = q.sumOf w := fun w => by
    rw [sumOf, sumOf, coefficientsOf_eq, coefficientsOf_eq, termsP, termsQ]
    simp only [List.filter_cons, List.filter_nil]
    by_cases x : some ("x", 1) = w
    · subst x
      decide
    by_cases square : some ("t", 2) = w
    · subst square
      decide
    by_cases constant : none = w
    · subst constant
      decide
    by_cases t : some ("t", 1) = w <;> simp [x, square, constant, t]
  obtain ⟨identity, -, -, -, -, -, once⟩ := canonical_identity hp hq
  exact ⟨p, q, by decide +kernel, by decide +kernel, identity.mpr (sumOf_eq_iff.mp sums), once, by decide +kernel⟩

end Sums

end Member

end FunctionStudy
