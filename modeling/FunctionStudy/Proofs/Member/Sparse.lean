import FunctionStudy.Proofs.Member.Identity
import FunctionStudy.Proofs.Member.OneLetter

/-! Dense and sparse form. A list of coefficients and the member of its nonzero terms say the same,
as long as the exponents are doubles. -/

namespace FunctionStudy

open Term (ofPower)

def Power.ofExponent (letter : String) (k : ℕ) : Power := if k = 0 then none else some (letter, k)

theorem Power.ofExponent_injective (letter : String) : Function.Injective (ofExponent letter) := by
  intro j k same
  unfold ofExponent at same
  split_ifs at same with hj hk
  · rw [hj, hk]
  · exact congrArg Prod.snd (Option.some.inj same)

namespace Term

variable {t : Term} {letter : String} {c : Binary64} {k : ℕ}

theorem coefficient_ofPower (letter : String) (c : Binary64) (k : ℕ) : (ofPower letter c k).coefficient = c := by
  unfold ofPower
  split_ifs <;> rfl

theorem power_ofPower (hk : IsDouble k) : (ofPower letter c k).power = .ofExponent letter k := by
  rw [power, natExponent_ofPower hk, Power.ofExponent]
  split_ifs with zero
  · rfl
  · rw [ofPower, if_neg zero]
    rfl

theorem literal_ofPower (hk : IsDouble k) : (if (ofPower letter c k).key.isEmpty then none
    else (ofPower letter c k).literal) = (ofPower letter c k).literal := by
  by_cases zero : k = 0
  · rw [ofPower, if_pos zero]
    exact ite_self _
  · have nonzero : (Binary64.ofInt k).isZero = false := by
      rw [← Bool.not_eq_true, Binary64.isZero_iff hk]
      exact_mod_cast zero
    have own : ∀ l : Literal, Term.key ⟨c, some l⟩ = l.key := fun _ => rfl
    rw [ofPower, if_neg zero, own, Literal.isEmpty_key, nonzero, if_neg Bool.false_ne_true]

theorem isInteger_ofPower (hk : IsDouble k) {z : ℤ} (hc : c.toRat? = some (z : ℚ)) : (ofPower letter c k).IsInteger :=
  ⟨⟨z, by rw [coefficient_ofPower, hc]⟩, k, toRat?_exponent_ofPower letter c hk⟩

theorem power_eq_ofExponent (one : ∀ m ∈ t.literal, m.letter = letter) :
    t.power = .ofExponent letter t.natExponent := by
  rw [power, Power.ofExponent]
  split_ifs with zero
  · rfl
  · cases literal : t.literal with
    | none => exact absurd (natExponent_eq_zero_of_none literal) zero
    | some m => rw [Option.map_some, one m literal]

end Term

namespace Member

variable {p : Member} {letter : String}

section Degree

variable {d : ℤ}

theorem HasNaturalExponents.coefficientsTo_eq_error (h : p.HasNaturalExponents)
    (above : ∃ t ∈ p.terms, d < t.natExponent) :
    ∃ t ∈ p.terms, d < t.natExponent ∧
      p.coefficientsTo d = .error (.domain (.termExceedsDegree (t.bareText false) d)) := by
  cases found : (p.terms.map fun t => (t.natExponent, t)).find? fun e => d < e.1 with
  | none =>
    obtain ⟨t, ht, high⟩ := above
    have low := List.find?_eq_none.mp found _ (List.mem_map_of_mem ht)
    exact absurd (decide_eq_true high) low
  | some e =>
    obtain ⟨t, ht, rfl⟩ := List.mem_map.mp (List.mem_of_find?_eq_some found)
    refine ⟨t, ht, of_decide_eq_true (List.find?_some found :), ?_⟩
    rw [Member.coefficientsTo, h.naturalExponents]
    simp only [bind, Except.bind, found]
    rfl

theorem eq_of_coefficientsTo {d : ℕ} {cs : List Binary64} (h : p.coefficientsTo d = .ok cs) :
    p.HasNaturalExponents ∧ p.writtenDegree ≤ d ∧ cs = (List.range (d + 1)).reverse.map p.likeSum := by
  have natural := HasNaturalExponents.of_coefficientsTo h
  have degree : p.writtenDegree ≤ d := by
    refine writtenDegree_le_iff.mpr fun t ht => ?_
    by_contra high
    obtain ⟨u, -, -, refused⟩ := natural.coefficientsTo_eq_error ⟨t, ht, Int.ofNat_lt.mpr (not_le.mp high)⟩
    rw [refused] at h
    cases h
  exact ⟨natural, degree, Except.ok.inj (h.symm.trans (natural.coefficientsTo degree))⟩

end Degree

section Sparse

variable {f : ℕ → Binary64} {n k : ℕ}

def nonzeroExponents (f : ℕ → Binary64) (n : ℕ) : List ℕ := (List.range n).reverse.filter fun k => !(f k).isZero

theorem mem_nonzeroExponents : k ∈ nonzeroExponents f n ↔ k < n ∧ (f k).isZero = false := by simp [nonzeroExponents]

theorem nodup_nonzeroExponents (f : ℕ → Binary64) (n : ℕ) : (nonzeroExponents f n).Nodup :=
  (List.nodup_reverse.mpr List.nodup_range).filter _

/-- The member of the coefficients of the exponents below a number. -/
def ofExponents (f : ℕ → Binary64) (letter : String) (n : ℕ) : Member :=
  ofCoefficients ((List.range n).reverse.map f) letter

theorem terms_ofExponents (f : ℕ → Binary64) (letter : String) (n : ℕ) :
    (ofExponents f letter n).terms = (nonzeroExponents f n).map fun k => ofPower letter (f k) k :=
  terms_ofCoefficients_range f letter n

theorem exists_eq_map_range (cs : List Binary64) :
    ∃ f : ℕ → Binary64, cs = (List.range cs.length).reverse.map f := by
  induction cs with
  | nil => exact ⟨fun _ => .zero, rfl⟩
  | cons c rest ih =>
    obtain ⟨f, hf⟩ := ih
    refine ⟨fun k => if k = rest.length then c else f k, ?_⟩
    have others : (List.range rest.length).reverse.map (fun k => if k = rest.length then c else f k) =
        (List.range rest.length).reverse.map f :=
      List.map_congr_left fun k hk => if_neg (List.mem_range.mp (List.mem_reverse.mp hk)).ne
    rw [List.length_cons, List.range_succ, List.reverse_append, List.reverse_singleton, List.singleton_append,
      List.map_cons, if_pos rfl, others, ← hf]

variable (doubles : ∀ k ∈ nonzeroExponents f n, IsDouble k)

include doubles

theorem hasNaturalExponents_ofExponents : (ofExponents f letter n).HasNaturalExponents := by
  intro t ht
  rw [terms_ofExponents] at ht
  obtain ⟨k, hk, rfl⟩ := List.mem_map.mp ht
  rw [Term.natExponent_ofPower (doubles k hk)]
  exact Term.toRat?_exponent_ofPower letter _ (doubles k hk)

theorem likeSum_ofExponents (hk : k < n) :
    (ofExponents f letter n).likeSum k = if (f k).isZero then .zero else f k := by
  have own : (ofExponents f letter n).terms.filter (fun t => t.natExponent = k) =
      if k ∈ nonzeroExponents f n then [ofPower letter (f k) k] else [] := by
    have same : (nonzeroExponents f n).filter ((fun t : Term => decide (t.natExponent = k)) ∘
        fun j => ofPower letter (f j) j) = (nonzeroExponents f n).filter fun j => decide (j = k) :=
      List.filter_congr fun j hj => by rw [Function.comp_apply, Term.natExponent_ofPower (doubles j hj)]
    rw [terms_ofExponents, List.filter_map, same, List.filter_eq, (nodup_nonzeroExponents f n).count]
    split_ifs <;> simp
  rw [likeSum, own]
  cases zero : (f k).isZero with
  | true =>
    rw [if_neg fun member => Bool.false_ne_true ((mem_nonzeroExponents.mp member).2.symm.trans zero)]
    rfl
  | false =>
    rw [if_pos (mem_nonzeroExponents.mpr ⟨hk, zero⟩), List.map_singleton, Term.coefficient_ofPower]
    exact Binary64.zero_add_of_isZero_eq_false zero

theorem writtenDegree_ofExponents_le : (ofExponents f letter n).writtenDegree ≤ n - 1 := by
  refine writtenDegree_le_iff.mpr fun t ht => ?_
  rw [terms_ofExponents] at ht
  obtain ⟨k, hk, rfl⟩ := List.mem_map.mp ht
  rw [Term.natExponent_ofPower (doubles k hk)]
  exact Nat.le_sub_one_of_lt (mem_nonzeroExponents.mp hk).1

theorem entries_ofExponents (integers : ∀ k ∈ nonzeroExponents f n, ∃ z : ℤ, (f k).toRat? = some (z : ℚ)) :
    (ofExponents f letter n).entries = (nonzeroExponents f n).map fun k => ((Power.ofExponent letter k).key, f k) := by
  have key : ∀ k ∈ nonzeroExponents f n,
      (ofPower letter (f k) k).key = (Power.ofExponent letter k).key := fun k hk => by
    obtain ⟨z, hz⟩ := integers k hk
    rw [(Term.isInteger_ofPower (doubles k hk) hz).key_eq, Term.power_ofPower (doubles k hk)]
  have keys : (ofExponents f letter n).terms.map Term.key =
      (nonzeroExponents f n).map fun k => (Power.ofExponent letter k).key := by
    rw [terms_ofExponents, List.map_map]
    exact List.map_congr_left key
  have distinct : ((ofExponents f letter n).terms.map Term.key).Nodup := by
    rw [keys]
    exact (nodup_nonzeroExponents f n).map fun j k same =>
      Power.ofExponent_injective letter (Power.key_injective same)
  have collected : (ofExponents f letter n).simplify = ofExponents f letter n := by
    refine simplify_eq_self distinct (fun t ht => ?_) fun t ht => ?_
    all_goals
      rw [terms_ofExponents] at ht
      obtain ⟨k, hk, rfl⟩ := List.mem_map.mp ht
    · rw [Term.coefficient_ofPower]
      exact (mem_nonzeroExponents.mp hk).2
    · exact Term.literal_ofPower (doubles k hk)
  rw [entries, collected, terms_ofExponents, List.map_map]
  refine List.map_congr_left fun k hk => ?_
  rw [Function.comp_apply, key k hk, Term.coefficient_ofPower]

end Sparse

section Inverse

variable {f : ℕ → Binary64} {d k : ℕ}

/-- The coefficients come back exactly where the exponents of those that are not zero are doubles. -/
theorem exists_coefficientsTo_iff (finite : ∀ k ≤ d, (f k).isFinite = true) :
    (∃ cs, (ofExponents f letter (d + 1)).coefficientsTo d = .ok cs ∧
      List.Forall₂ (fun a b => a.same b = true) cs ((List.range (d + 1)).reverse.map f)) ↔
    ∀ k ∈ nonzeroExponents f (d + 1), IsDouble k := by
  have value : ∀ k ∈ (List.range (d + 1)).reverse, (f k).toRat? = some (f k).toRat := fun k hk =>
    Binary64.toRat?_of_finite (finite k (by simpa [Nat.lt_succ_iff] using hk))
  constructor
  · rintro ⟨cs, collected, same⟩ k hk
    obtain ⟨natural, -, rfl⟩ := eq_of_coefficientsTo collected
    rw [List.forall₂_map_left_iff, List.forall₂_map_right_iff, List.forall₂_same] at same
    obtain ⟨below, nonzero⟩ := mem_nonzeroExponents.mp hk
    have inside : k ∈ (List.range (d + 1)).reverse := by simpa using below
    have sum := Binary64.toRat?_of_same (value k inside) (same k inside)
    have some : ((ofExponents f letter (d + 1)).likeSum k).isZero = false := by
      rwa [← Bool.not_eq_true, Binary64.isZero_iff sum, ← Binary64.isZero_iff (value k inside), Bool.not_eq_true]
    obtain ⟨t, ht, rfl⟩ := exists_natExponent_of_likeSum some
    exact isDouble_of_toRat? (natural t ht)
  · intro doubles
    refine ⟨_, (hasNaturalExponents_ofExponents doubles).coefficientsTo (writtenDegree_ofExponents_le doubles), ?_⟩
    rw [List.forall₂_map_left_iff, List.forall₂_map_right_iff, List.forall₂_same]
    intro k hk
    have below : k < d + 1 := by simpa using hk
    rw [← likeSum, likeSum_ofExponents doubles below]
    split_ifs with zero
    · exact (Binary64.same_iff Binary64.toRat?_zero (value k hk)).mpr
        ((Binary64.isZero_iff (value k hk)).mp zero).symm
    · exact (Binary64.same_iff (value k hk) (value k hk)).mpr rfl

section Integers

variable (h : p.IsInteger) (one : ∀ t ∈ p.terms, ∀ m ∈ t.literal, m.letter = letter)

include h one

theorem IsInteger.likeSum_eq (k : ℕ) : p.likeSum k = .ofInt (p.sumOf (.ofExponent letter k)) := by
  have alike : p.terms.filter (fun t => t.natExponent = k) =
      p.terms.filter fun t => t.key == (Power.ofExponent letter k).key := by
    refine List.filter_congr fun t ht => ?_
    rw [Bool.eq_iff_iff, beq_iff_eq, decide_eq_true_iff, (h.terms t ht).key_eq, Term.power_eq_ofExponent (one t ht),
      Power.key_injective.eq_iff, (Power.ofExponent_injective letter).eq_iff]
  rw [← h.coefficientSum_key, likeSum, alike]
  rfl

theorem IsInteger.coefficients_eq : p.coefficients =
    .ok ((List.range (p.writtenDegree + 1)).reverse.map fun k => .ofInt (p.sumOf (.ofExponent letter k))) := by
  have natural : p.HasNaturalExponents := fun t ht => (h.terms t ht).toRat?_exponent
  rw [natural.coefficients, natural.coefficientsTo le_rfl]
  exact congrArg Except.ok (List.map_congr_left fun k _ => h.likeSum_eq one k)

theorem IsInteger.exists_ofExponent {w : Power} (some : p.sumOf w ≠ 0) :
    ∃ k ≤ p.writtenDegree, IsDouble k ∧ w = .ofExponent letter k := by
  obtain ⟨t, ht, rfl⟩ := exists_power_of_sumOf some
  exact ⟨t.natExponent, natExponent_le_writtenDegree ht, isDouble_of_toRat? (h.terms t ht).toRat?_exponent,
    Term.power_eq_ofExponent (one t ht)⟩

/-- The member of the sums is the member up to order. -/
theorem IsInteger.canonical_ofExponents :
    (ofExponents (fun k => .ofInt (p.sumOf (.ofExponent letter k))) letter (p.writtenDegree + 1)).canonical =
      p.canonical := by
  have nonzero : ∀ k, k ∈ nonzeroExponents (fun k => .ofInt (p.sumOf (.ofExponent letter k))) (p.writtenDegree + 1) ↔
      k ≤ p.writtenDegree ∧ p.sumOf (.ofExponent letter k) ≠ 0 := fun k => by
    rw [mem_nonzeroExponents, Nat.lt_succ_iff, ← Bool.not_eq_true, isZero_ofInt (h.abs_sumOf_le _)]
  have doubles : ∀ k ∈ nonzeroExponents (fun k => .ofInt (p.sumOf (.ofExponent letter k))) (p.writtenDegree + 1),
      IsDouble k := fun k hk => by
    obtain ⟨j, -, double, same⟩ := h.exists_ofExponent one ((nonzero k).mp hk).2
    rwa [Power.ofExponent_injective letter same]
  rw [Member.canonical_eq_iff]
  intro e
  rw [entries_ofExponents doubles fun k _ => ⟨_, Binary64.toRat?_ofInt (h.abs_sumOf_le _)⟩, h.mem_entries,
    List.mem_map]
  constructor
  · rintro ⟨k, hk, rfl⟩
    exact ⟨_, ((nonzero k).mp hk).2, rfl⟩
  · rintro ⟨w, some, rfl⟩
    obtain ⟨k, below, -, rfl⟩ := h.exists_ofExponent one some
    exact ⟨k, (nonzero k).mpr ⟨below, some⟩, rfl⟩

end Integers

/-- A list of finite coefficients comes back from its member as the numbers it holds, exactly where the exponents
of the nonzero ones are doubles, as they are in every list of at most `2^53+1` coefficients (no memory has room for
more). A member with integer coefficients in one letter is canonically the member of its coefficients, and it has
none below its degree. -/
theorem dense_inverse (letter : String) :
    (∀ cs : List Binary64, cs ≠ [] → (∀ c ∈ cs, c.isFinite = true) →
      ((∃ ds, (ofCoefficients cs letter).coefficientsTo (cs.length - 1 : ℕ) = .ok ds ∧
          List.Forall₂ (fun d c => d.same c = true) ds cs) ↔ HasDoubleExponents cs) ∧
        (cs.length ≤ 2 ^ 53 + 1 → HasDoubleExponents cs)) ∧
    ∀ p : Member, p.IsInteger → (∀ t ∈ p.terms, ∀ m ∈ t.literal, m.letter = letter) →
      (∃ cs, p.coefficients = .ok cs ∧ (ofCoefficients cs letter).canonical = p.canonical) ∧
      ∀ d : ℤ, (∃ t ∈ p.terms, d < t.natExponent) → ∃ t ∈ p.terms, d < t.natExponent ∧
        p.coefficientsTo d = .error (.domain (.termExceedsDegree (t.bareText false) d)) := by
  refine ⟨fun cs some finite => ⟨?_, hasDoubleExponents_of_length_le⟩, fun p h one =>
    ⟨⟨_, h.coefficients_eq one, h.canonical_ofExponents one⟩, fun d above => ?_⟩⟩
  · obtain ⟨d, length⟩ : ∃ d, cs.length = d + 1 := Nat.exists_eq_succ_of_ne_zero (List.length_pos_iff.mpr some).ne'
    obtain ⟨f, shape⟩ := exists_eq_map_range cs
    rw [length] at shape
    have values : ∀ k ≤ d, (f k).isFinite = true := fun k hk =>
      finite _ (shape ▸ List.mem_map_of_mem (by simpa using Nat.lt_succ_of_le hk))
    rw [length, Nat.add_sub_cancel, shape, hasDoubleExponents_range]
    refine (exists_coefficientsTo_iff values).trans (forall_congr' fun k => ?_)
    rw [mem_nonzeroExponents, and_imp]
  · exact HasNaturalExponents.coefficientsTo_eq_error (fun t ht => (h.terms t ht).toRat?_exponent) above

/-- `x^0+2x^3-x+4x-7` has the coefficients 2, 0, 3 and -6, and none up to the degree 2. -/
theorem dense_inverse_gap : ∃ p cs ds, parse "x^0+2x^3-x+4x-7" = .ok p ∧ p.coefficients = .ok cs ∧
    (ofCoefficients cs "x").canonical = p.canonical ∧ cs = [.ofInt 2, .zero, .ofInt 3, .ofInt (-6)] ∧
    (ofCoefficients cs "x").coefficientsTo 3 = .ok ds ∧ List.Forall₂ (fun d c => d.same c = true) ds cs ∧
    p.coefficientsTo 2 = .error (.domain (.termExceedsDegree "2x^3" 2)) := by
  let power (a k : ℤ) : Term := ⟨.ofInt a, some { letter := "x", exponent := .ofInt k }⟩
  let p : Member := ⟨[power 1 0, power 2 3, power (-1) 1, power 4 1, .constant (.ofInt (-7))]⟩
  let cs : List Binary64 := [.ofInt 2, .zero, .ofInt 3, .ofInt (-6)]
  have collected : p.coefficients = .ok cs := by decide +kernel
  obtain ⟨lists, members⟩ := dense_inverse "x"
  obtain ⟨⟨ds, own, back⟩, above⟩ := members p (.of_isIntegral (by decide +kernel) (by decide +kernel))
    (by decide +kernel)
  obtain rfl := Except.ok.inj (collected.symm.trans own)
  obtain ⟨roundTrip, short⟩ := lists cs (by decide) (by decide +kernel)
  obtain ⟨ds, again, same⟩ := roundTrip.mpr (short (by decide))
  obtain ⟨t, ht, high, refused⟩ := above 2
    ⟨power 2 3, List.mem_cons_of_mem _ List.mem_cons_self, by decide +kernel⟩
  have cubic : ∀ t ∈ p.terms, (2 : ℤ) < t.natExponent → t.bareText false = "2x^3" := by decide +kernel
  rw [cubic t ht high] at refused
  exact ⟨p, cs, ds, by decide +kernel, collected, back, rfl, again, same, refused⟩

end Inverse

end Member

end FunctionStudy
