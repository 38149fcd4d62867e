import Mathlib.Algebra.Order.Field.Rat
import Mathlib.Data.Nat.Sqrt
import Mathlib.RingTheory.Localization.Rat
import Mathlib.RingTheory.Polynomial.RationalRoot
import Mathlib.Tactic.Linarith
import FunctionStudy.Proofs.Decimal.PlainText
import FunctionStudy.Ruffini.Candidates

/-! The candidates contain a rational root if there is one: a divisor of the constant over one of
the leading coefficient. For constant 0 the candidate 0 is a root itself. -/

namespace FunctionStudy

theorem mem_smallDivisors {n d : ℕ} : d ∈ smallDivisors n ↔ 0 < d ∧ d ≤ Nat.sqrt n ∧ d ∣ n := by
  simp only [smallDivisors, List.mem_filter, List.mem_range'_1, decide_eq_true_eq,
    Nat.dvd_iff_mod_eq_zero]
  omega

theorem mem_positiveDivisors {n d : ℕ} (hn : 0 < n) : d ∈ positiveDivisors n ↔ d ∣ n := by
  simp only [positiveDivisors, List.mem_append, List.mem_filter, List.mem_map, List.mem_reverse,
    mem_smallDivisors, decide_eq_true_eq]
  constructor
  · rintro (⟨-, -, h⟩ | ⟨⟨e, ⟨-, -, h⟩, rfl⟩, -⟩)
    · exact h
    · exact Nat.div_dvd_of_dvd h
  · intro h
    have positive : 0 < d := Nat.pos_of_dvd_of_pos h hn
    by_cases small : d ≤ Nat.sqrt n
    · exact .inl ⟨positive, small, h⟩
    · -- The partner of a divisor above the square root is below it.
      have large : n < d * d := Nat.sqrt_lt.mp (not_le.mp small)
      have partner : n / d * d = n := Nat.div_mul_cancel h
      refine .inr ⟨⟨n / d, ⟨Nat.div_pos (Nat.le_of_dvd hn h) positive, ?_, Nat.div_dvd_of_dvd h⟩,
        Nat.div_div_self h hn.ne'⟩, large.ne'⟩
      apply Nat.le_sqrt.mpr
      have below : n / d < d := Nat.div_lt_of_lt_mul large
      calc n / d * (n / d) ≤ n / d * d := Nat.mul_le_mul_left _ below.le
        _ = n := partner

theorem Number.whole?_double {x : Binary64} {z : ℤ} (hx : x.toRat? = some (z : ℚ)) :
    (Number.double x).whole? = .ok (some z) := by
  have value : x.toRat = z := Binary64.toRat_eq hx
  simp only [Number.whole?, Number.toBinary64, Number.truncated, Binary64.toInt_intCast hx]
  simp [bind, Except.bind, pure, Except.pure, value]

/-- The divisors as they are listed for a number of this size, ascending. -/
def listedDivisors (n : ℕ) (includeNegative : Bool) : List ℤ :=
  let positive := (positiveDivisors n).map Int.ofNat
  if includeNegative then positive.reverse.map (- ·) ++ positive else positive

theorem divisors_of_whole {n : Number} {z : ℤ} (nonzero : n.isZero = false)
    (whole : n.whole? = .ok (some z)) (includeNegative : Bool) :
    divisors n includeNegative = .ok (listedDivisors z.natAbs includeNegative) := by
  rw [divisors, nonzero, whole]
  cases includeNegative <;> rfl

theorem mem_listedDivisors {z : ℤ} (nonzero : z ≠ 0) (includeNegative : Bool) (d : ℤ) :
    d ∈ listedDivisors z.natAbs includeNegative ↔ d ∣ z ∧ (includeNegative = false → 0 < d) := by
  have size : 0 < z.natAbs := Int.natAbs_pos.mpr nonzero
  have listed : ∀ d : ℤ, d ∈ (positiveDivisors z.natAbs).map Int.ofNat ↔ d ∣ z ∧ 0 < d := by
    intro d
    simp only [List.mem_map, mem_positiveDivisors size]
    constructor
    · rintro ⟨e, he, rfl⟩
      exact ⟨Int.natCast_dvd.mpr he, Int.natCast_pos.mpr (Nat.pos_of_dvd_of_pos he size)⟩
    · rintro ⟨hd, pos⟩
      exact ⟨d.natAbs, Int.natAbs_dvd_natAbs.mpr hd, by simpa using pos.le⟩
  unfold listedDivisors
  generalize (positiveDivisors z.natAbs).map Int.ofNat = positive at listed
  cases includeNegative with
  | false => simpa using listed d
  | true =>
    have opposite := listed (-d)
    rw [Int.neg_dvd] at opposite
    have mirrored : (∃ e ∈ positive, -e = d) ↔ -d ∈ positive :=
      ⟨by rintro ⟨e, he, rfl⟩; rwa [neg_neg], fun h => ⟨-d, h, neg_neg d⟩⟩
    have signed : d ∣ z → d ≠ 0 := by rintro h rfl; exact nonzero (zero_dvd_iff.mp h)
    simp only [if_true, List.mem_append, List.mem_map, List.mem_reverse]
    rw [mirrored, opposite, listed]
    constructor
    · rintro (⟨h, -⟩ | ⟨h, -⟩) <;> exact ⟨h, by simp⟩
    · rintro ⟨h, -⟩
      have := signed h
      by_cases pos : 0 < d
      · exact .inr ⟨h, pos⟩
      · exact .inl ⟨h, by omega⟩

/-- The divisors of an integer of either sign; those of 0 are not listed. -/
theorem divisors_double {x : Binary64} {z : ℤ} (hx : x.toRat? = some (z : ℚ))
    (includeNegative : Bool) :
    ∃ ds, divisors (.double x) includeNegative = .ok ds ∧
      ∀ d, d ∈ ds ↔ z ≠ 0 ∧ d ∣ z ∧ (includeNegative = false → 0 < d) := by
  by_cases zero : z = 0
  · have hz : (Number.double x).isZero = true :=
      (Binary64.isZero_iff hx).mpr (by exact_mod_cast zero)
    exact ⟨[], by simp [divisors, hz, pure, Except.pure], by simp [zero]⟩
  · have hz : (Number.double x).isZero = false := by
      rw [← Bool.not_eq_true]
      exact mt (Binary64.isZero_iff hx).mp (by exact_mod_cast zero)
    refine ⟨_, divisors_of_whole hz (Number.whole?_double hx) includeNegative, fun d => ?_⟩
    rw [mem_listedDivisors zero, and_iff_right zero]

/-- What is kept already comes first, then the other values, each where it appears first. -/
theorem foldl_withoutRepeats (vs kept : List ℚ) {seen : Std.HashSet ℚ}
    (agrees : ∀ v, seen.contains v = true ↔ v ∈ kept) :
    (vs.foldl (fun (state : Std.HashSet ℚ × List ℚ) v =>
      if state.1.contains v then state else (state.1.insert v, v :: state.2)) (seen, kept)).2.reverse =
      kept.reverse ++ (vs.filter (· ∉ kept)).eraseDups := by
  induction vs generalizing seen kept with
  | nil => rw [List.foldl_nil, List.filter_nil, List.eraseDups_nil, List.append_nil]
  | cons v vs ih =>
    rw [List.foldl_cons]
    by_cases old : v ∈ kept
    · rw [if_pos ((agrees v).mpr old), ih kept agrees, List.filter_cons_of_neg (by simpa using old)]
    · have extended : ∀ u, (seen.insert v).contains u = true ↔ u ∈ v :: kept := by
        intro u
        rw [Std.HashSet.contains_insert, Bool.or_eq_true, agrees, List.mem_cons, beq_iff_eq, eq_comm]
      have others : ∀ u, decide (u ∉ v :: kept) = (!u == v && decide (u ∉ kept)) := by
        intro u
        rw [Bool.eq_iff_iff]
        simp
      rw [if_neg (mt (agrees v).mp old), ih _ extended, List.filter_cons_of_pos (by simpa using old),
        List.eraseDups_cons, List.filter_filter, List.reverse_cons, List.append_assoc,
        List.singleton_append, List.filter_congr fun u _ => others u]

theorem withoutRepeats_eq (vs : List ℚ) : withoutRepeats vs = vs.eraseDups := by
  rw [withoutRepeats, foldl_withoutRepeats vs [] (by simp)]
  simp

theorem mem_withoutRepeats {v : ℚ} {vs : List ℚ} : v ∈ withoutRepeats vs ↔ v ∈ vs := by
  rw [withoutRepeats_eq, List.mem_eraseDups]

theorem candidateRoots_eq {constant leading : Number} {ps qs : List ℤ} {c l : ℚ}
    (numerators : divisors constant true = .ok ps) (denominators : divisors leading false = .ok qs)
    (hc : constant.toRat = .ok c) (hl : leading.toRat = .ok l) :
    candidateRoots constant leading = .ok (withoutRepeats (c :: ps.map Int.cast ++ l :: qs.map Int.cast ++
      ps.flatMap fun p : ℤ => qs.map fun q : ℤ => (p / q : ℚ))) := by
  rw [candidateRoots, numerators, denominators, hc, hl]
  rfl

theorem candidateRoots_double {x y : Binary64} {c l : ℤ} (hx : x.toRat? = some (c : ℚ))
    (hy : y.toRat? = some (l : ℚ)) (hl : l ≠ 0) :
    ∃ cands, candidateRoots (.double x) (.double y) = .ok cands ∧ (c : ℚ) ∈ cands ∧
      (∀ p q : ℤ, c ≠ 0 → p ∣ c → q ∣ l → 0 < q → (p / q : ℚ) ∈ cands) ∧
      ∀ v ∈ cands, |v| ≤ max |(c : ℚ)| |(l : ℚ)| := by
  obtain ⟨ps, hps, memP⟩ := divisors_double hx true
  obtain ⟨qs, hqs, memQ⟩ := divisors_double hy false
  have exactC : (Number.double x).toRat = .ok (c : ℚ) := Decimal.exact_intCast hx
  have exactL : (Number.double y).toRat = .ok (l : ℚ) := Decimal.exact_intCast hy
  refine ⟨_, candidateRoots_eq hps hqs exactC exactL, ?_, ?_, ?_⟩
  · rw [mem_withoutRepeats]
    simp
  · intro p q hc hp hq positive
    have inP : p ∈ ps := (memP p).mpr ⟨hc, hp, by simp⟩
    have inQ : q ∈ qs := (memQ q).mpr ⟨hl, hq, fun _ => positive⟩
    rw [mem_withoutRepeats]
    simp only [List.mem_append, List.mem_flatMap, List.mem_map]
    exact .inr ⟨p, inP, q, inQ, rfl⟩
  · have sizeP : ∀ p ∈ ps, |(p : ℚ)| ≤ |(c : ℚ)| := by
      intro p hp
      obtain ⟨hc, divides, -⟩ := (memP p).mp hp
      exact_mod_cast Int.le_of_dvd (abs_pos.mpr hc) ((abs_dvd_abs p c).mpr divides)
    have sizeQ : ∀ q ∈ qs, (1 : ℚ) ≤ q ∧ |(q : ℚ)| ≤ |(l : ℚ)| := by
      intro q hq
      obtain ⟨hl, divides, positive⟩ := (memQ q).mp hq
      exact ⟨by exact_mod_cast positive rfl,
        by exact_mod_cast Int.le_of_dvd (abs_pos.mpr hl) ((abs_dvd_abs q l).mpr divides)⟩
    intro v hv
    rw [mem_withoutRepeats] at hv
    simp only [List.mem_append, List.mem_cons, List.mem_flatMap, List.mem_map] at hv
    rw [le_max_iff]
    rcases hv with ((rfl | ⟨p, hp, rfl⟩) | (rfl | ⟨q, hq, rfl⟩)) | ⟨p, hp, q, hq, rfl⟩
    · exact .inl le_rfl
    · exact .inl (sizeP p hp)
    · exact .inr le_rfl
    · exact .inr (sizeQ q hq).2
    · left
      have one := (sizeQ q hq).1
      rw [abs_div, abs_of_pos (by linarith : (0 : ℚ) < q)]
      exact (div_le_self (abs_nonneg _) one).trans (sizeP p hp)

section RationalRoots

open Polynomial

theorem num_dvd_and_den_dvd {P : ℤ[X]} {r : ℚ} (h : aeval r P = 0) :
    r.num ∣ P.coeff 0 ∧ (r.den : ℤ) ∣ P.leadingCoeff := by
  obtain ⟨num, den⟩ := Rat.associated_num_den r
  exact ⟨num.dvd_iff_dvd_left.mp (num_dvd_of_is_root h),
    den.dvd_iff_dvd_left.mp (den_dvd_of_is_root h)⟩

theorem exists_root_mem_candidates {P : ℤ[X]} {cands : List ℚ} {r : ℚ} (h : aeval r P = 0)
    (constant : (P.coeff 0 : ℚ) ∈ cands)
    (ratios : ∀ p q : ℤ, P.coeff 0 ≠ 0 → p ∣ P.coeff 0 → q ∣ P.leadingCoeff → 0 < q →
      (p / q : ℚ) ∈ cands) :
    ∃ s ∈ cands, aeval s P = 0 := by
  by_cases zero : P.coeff 0 = 0
  · refine ⟨_, constant, ?_⟩
    rw [zero, Int.cast_zero, ← coeff_zero_eq_aeval_zero', zero, map_zero]
  · obtain ⟨num, den⟩ := num_dvd_and_den_dvd h
    have listed := ratios r.num r.den zero num den (Int.natCast_pos.mpr r.den_pos)
    rw [Int.cast_natCast, Rat.num_div_den] at listed
    exact ⟨r, listed, h⟩

end RationalRoots

end FunctionStudy
