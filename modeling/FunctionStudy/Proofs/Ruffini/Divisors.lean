import FunctionStudy.Proofs.Ruffini.Candidates

/-! Divisors in order, candidates without repeats. The partners of the divisors up to the square
root follow in the opposite order, so that all of them come out ascending. -/

namespace FunctionStudy

section Ascending

variable {n d : ℕ}

theorem pairwise_smallDivisors (n : ℕ) : (smallDivisors n).Pairwise (· < ·) :=
  (List.pairwise_lt_range' 1).filter _

/-- The partner of a small divisor is above the square root, if the square root is not both. -/
theorem sqrt_lt_partner (small : d ∈ smallDivisors n) (distinct : n / d * (n / d) ≠ n) :
    Nat.sqrt n < n / d := by
  obtain ⟨positive, below, divides⟩ := mem_smallDivisors.mp small
  have product : n / d * d = n := Nat.div_mul_cancel divides
  have square : d * d ≤ n := Nat.le_sqrt.mp below
  rw [Nat.sqrt_lt]
  -- At least `n` already follows from `d ≤ n / d`; only equality has to be excluded.
  have partner : d ≤ n / d := (Nat.le_div_iff_mul_le positive).mpr square
  have larger : n ≤ n / d * (n / d) :=
    calc n = n / d * d := product.symm
      _ ≤ n / d * (n / d) := Nat.mul_le_mul_left _ partner
  omega

theorem pairwise_partners (positive : 0 < n) :
    ((smallDivisors n).reverse.map (n / ·)).Pairwise (· < ·) := by
  rw [List.pairwise_map, List.pairwise_reverse]
  refine (pairwise_smallDivisors n).imp_of_mem fun {d e} hd he below => ?_
  have left := (mem_smallDivisors.mp hd).2.2
  have right := (mem_smallDivisors.mp he).2.2
  exact (Nat.div_lt_div_left positive.ne' right left).mpr below

theorem pairwise_positiveDivisors (positive : 0 < n) : (positiveDivisors n).Pairwise (· < ·) := by
  refine List.pairwise_append.mpr ⟨pairwise_smallDivisors n, (pairwise_partners positive).filter _, ?_⟩
  intro d hd partner large
  obtain ⟨found, distinct⟩ := List.mem_filter.mp large
  obtain ⟨e, small, rfl⟩ := List.mem_map.mp found
  have above := sqrt_lt_partner (List.mem_reverse.mp small) (of_decide_eq_true distinct)
  exact (mem_smallDivisors.mp hd).2.1.trans_lt above

/-- The opposites are ascending when the list is read backwards, and all of them are below zero. -/
theorem pairwise_listedDivisors (positive : 0 < n) (includeNegative : Bool) :
    (listedDivisors n includeNegative).Pairwise (· < ·) := by
  have ascending : ((positiveDivisors n).map Int.ofNat).Pairwise (· < ·) :=
    (pairwise_positiveDivisors positive).map _ fun _ _ => Int.ofNat_lt.mpr
  have aboveZero : ∀ d ∈ (positiveDivisors n).map Int.ofNat, 0 < d := by
    intro d hd
    obtain ⟨e, he, rfl⟩ := List.mem_map.mp hd
    exact Int.natCast_pos.mpr (Nat.pos_of_dvd_of_pos ((mem_positiveDivisors positive).mp he) positive)
  cases includeNegative with
  | false => exact ascending
  | true =>
    refine List.pairwise_append.mpr ⟨?_, ascending, ?_⟩
    · rw [List.pairwise_map, List.pairwise_reverse]
      exact ascending.imp Int.neg_lt_neg
    · intro d hd e he
      obtain ⟨opposite, listed, rfl⟩ := List.mem_map.mp hd
      have below := aboveZero opposite (List.mem_reverse.mp listed)
      have above := aboveZero e he
      omega

end Ascending

section Distinct

theorem nodup_eraseDups {α : Type} [BEq α] [LawfulBEq α] (values : List α) : values.eraseDups.Nodup := by
  induction size : values.length using Nat.strong_induction_on generalizing values with
  | _ n ih =>
    cases values with
    | nil => exact List.nodup_nil
    | cons first rest =>
      have shorter := List.length_filter_le (fun value => !value == first) rest
      rw [List.length_cons] at size
      rw [List.eraseDups_cons, List.nodup_cons, List.mem_eraseDups]
      exact ⟨by simp, ih _ (by omega) _ rfl⟩

theorem nodup_withoutRepeats (values : List ℚ) : (withoutRepeats values).Nodup := by
  rw [withoutRepeats_eq]
  exact nodup_eraseDups values

theorem head?_withoutRepeats (first : ℚ) (rest : List ℚ) :
    (withoutRepeats (first :: rest)).head? = some first := by
  rw [withoutRepeats_eq, List.eraseDups_cons, List.head?_cons]

end Distinct

section Integers

/-- The number is an integer that some double is; it is given exactly or as that double. -/
def Number.IsInteger (n : Number) (z : ℤ) : Prop :=
  ∃ x : Binary64, x.toRat? = some (z : ℚ) ∧ (n = .double x ∨ n = .exact z)

namespace Number.IsInteger

variable {n : Number} {z : ℤ}

theorem whole? (h : n.IsInteger z) : n.whole? = .ok (some z) := by
  obtain ⟨x, value, rfl | rfl⟩ := h
  · exact whole?_double value
  · have checked : Binary64.ofIntChecked z = .ok (.ofInt z) := by
      have finite : (Binary64.ofInt z).isFinite = true := by
        rw [Binary64.isFinite, Binary64.ofInt, Binary64.toRat?_round (Binary64.onGrid_of_toRat? value)]
        rfl
      rw [Binary64.ofIntChecked, Binary64.ofInt?, if_pos finite]
    have same : (Binary64.ofInt z).toRat = z :=
      Binary64.toRat_eq (Binary64.toRat?_round (Binary64.onGrid_of_toRat? value))
    simp [Number.whole?, toBinary64, truncated, checked, same, bind, Except.bind, pure, Except.pure]

theorem toRat (h : n.IsInteger z) : n.toRat = .ok (z : ℚ) := by
  obtain ⟨x, value, rfl | rfl⟩ := h
  · exact Decimal.exact_intCast value
  · rfl

theorem isZero (h : n.IsInteger z) (nonzero : z ≠ 0) : n.isZero = false := by
  obtain ⟨x, value, rfl | rfl⟩ := h
  · rw [Number.isZero, ← Bool.not_eq_true]
    exact mt (Binary64.isZero_iff value).mp (by exact_mod_cast nonzero)
  · simpa [Number.isZero] using nonzero

theorem divisors_eq (h : n.IsInteger z) (nonzero : z ≠ 0) (includeNegative : Bool) :
    divisors n includeNegative = .ok (listedDivisors z.natAbs includeNegative) :=
  divisors_of_whole (h.isZero nonzero) h.whole? includeNegative

end Number.IsInteger

variable {n : Number} {z : ℤ}

/-- The divisors of an integer are listed ascending and without gaps. As the constant, it comes first among the
candidates, which hold every ratio of a divisor of it and a positive divisor of the leading coefficient, no
value twice. -/
theorem candidates_complete (integer : n.IsInteger z) (nonzero : z ≠ 0) :
    (∃ ds, divisors n true = .ok ds ∧ ds.Pairwise (· < ·) ∧ ∀ d, d ∈ ds ↔ d ∣ z) ∧
    (∃ ds, divisors n false = .ok ds ∧ ds.Pairwise (· < ·) ∧ ∀ d, d ∈ ds ↔ d ∣ z ∧ 0 < d) ∧
    ∀ (leading : Number) (l : ℤ), leading.IsInteger l → l ≠ 0 →
      ∃ candidates, candidateRoots n leading = .ok candidates ∧ candidates.Nodup ∧
        candidates.head? = some (z : ℚ) ∧
        ∀ p q : ℤ, p ∣ z → q ∣ l → 0 < q → (p / q : ℚ) ∈ candidates := by
  have size : 0 < z.natAbs := Int.natAbs_pos.mpr nonzero
  refine ⟨⟨_, integer.divisors_eq nonzero true, pairwise_listedDivisors size true, fun d => ?_⟩,
    ⟨_, integer.divisors_eq nonzero false, pairwise_listedDivisors size false, fun d => ?_⟩, ?_⟩
  · rw [mem_listedDivisors nonzero]
    exact and_iff_left nofun
  · rw [mem_listedDivisors nonzero, forall_prop_of_true rfl]
  · intro leading l hl leading_ne
    refine ⟨_, candidateRoots_eq (integer.divisors_eq nonzero true) (hl.divisors_eq leading_ne false)
      integer.toRat hl.toRat, nodup_withoutRepeats _, head?_withoutRepeats _ _, ?_⟩
    intro p q hp hq positive
    have numerator := (mem_listedDivisors nonzero true p).mpr ⟨hp, nofun⟩
    have denominator := (mem_listedDivisors leading_ne false q).mpr ⟨hq, fun _ => positive⟩
    rw [mem_withoutRepeats, List.mem_append]
    exact .inr (List.mem_flatMap.mpr ⟨p, numerator, List.mem_map.mpr ⟨q, denominator, rfl⟩⟩)

/-- A negative constant whose size is a square, and a leading coefficient that is given exactly. -/
theorem candidates_complete_square :
    (Number.double (.ofInt (-36))).IsInteger (-36) ∧ (Number.exact 4).IsInteger 4 ∧
    (∃ ds, divisors (.double (.ofInt (-36))) true = .ok ds ∧ ds.Pairwise (· < ·) ∧ -6 ∈ ds ∧ 6 ∈ ds) ∧
    ∃ candidates, candidateRoots (.double (.ofInt (-36))) (.exact 4) = .ok candidates ∧ candidates.Nodup ∧
      candidates.head? = some (-36) ∧ (6 / 4 : ℚ) ∈ candidates := by
  have constant : (Number.double (.ofInt (-36))).IsInteger (-36) :=
    ⟨_, Binary64.toRat?_ofInt (by norm_num), .inl rfl⟩
  have leading : (Number.exact 4).IsInteger 4 := ⟨.ofInt 4, Binary64.toRat?_ofInt (by norm_num), .inr rfl⟩
  obtain ⟨⟨ds, listed, ascending, mem⟩, -, candidates⟩ := candidates_complete constant (by decide)
  obtain ⟨values, tried, distinct, first, ratios⟩ := candidates _ _ leading (by decide)
  exact ⟨constant, leading, ⟨ds, listed, ascending, (mem (-6)).mpr (by decide), (mem 6).mpr (by decide)⟩,
    values, tried, distinct, by exact_mod_cast first, ratios 6 4 (by decide) (by decide) (by decide)⟩

end Integers

end FunctionStudy
