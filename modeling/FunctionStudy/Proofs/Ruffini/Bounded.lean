import FunctionStudy.Proofs.Faults.Regular
import FunctionStudy.Proofs.Member.Ordinary
import FunctionStudy.Proofs.Ruffini.ZeroTest

/-! Factoring polynomials of ordinary size. The sums and products of a division without remainder
are bounded by the total size of what is divided, so every number of the table has a double. -/

namespace FunctionStudy

open Decimal (exact writtenSize)

variable {l : Char} {r : ℕ} {x y : Binary64} {v w root sum : ℚ}

section Numbers

namespace Binary64

theorem isBounded_round (h : |v| ≤ 2 ^ r) (small : r ≤ 1000) : (round v).IsBounded (r + 1) := by
  refine ⟨_, toRat?_round_of_abs_le (h.trans (pow_le_pow_right₀ one_le_two small)), ?_⟩
  rw [pow_succ']
  exact (abs_gridValue_le v).trans (by gcongr)

theorem exists_toInt (hx : x.toRat? = some v) : x.toInt = .ok (v.num.tdiv v.den) := by
  cases x with
  | nan => cases hx
  | inf s => cases hx
  | negZero =>
    obtain rfl : 0 = v := Option.some.inj hx
    rfl
  | finite u h =>
    obtain rfl : u = v := Option.some.inj hx
    rfl

end Binary64

/-- A finite double is an integer or has no divisors, which is no failure. -/
theorem exists_divisors (hx : x.toRat? = some v) (includeNegative : Bool) :
    ∃ ds, divisors (.double x) includeNegative = .ok ds ∧ ∀ d ∈ ds, d ≠ 0 ∧ |(d : ℚ)| ≤ |v| := by
  by_cases integer : ∃ z : ℤ, v = z
  · obtain ⟨z, rfl⟩ := integer
    obtain ⟨ds, listed, mem⟩ := divisors_double hx includeNegative
    refine ⟨ds, listed, fun d hd => ?_⟩
    obtain ⟨nonzero, divides, -⟩ := (mem d).mp hd
    have size : |d| ≤ |z| := by
      rw [Int.abs_eq_natAbs, Int.abs_eq_natAbs]
      exact_mod_cast Nat.le_of_dvd (Int.natAbs_pos.mpr nonzero) (Int.natAbs_dvd_natAbs.mpr divides)
    exact ⟨fun zero => nonzero (by rwa [zero, zero_dvd_iff] at divides), by exact_mod_cast size⟩
  · have broken : ¬ x.toRat = ((v.num.tdiv v.den : ℤ) : ℚ) := by
      rw [Binary64.toRat_eq hx]
      exact fun same => integer ⟨_, same⟩
    have none : (Number.double x).whole? = .ok none := by
      simp only [Number.whole?, Number.toBinary64, Number.truncated, Binary64.exists_toInt hx, bind,
        Except.bind, pure, Except.pure, if_neg broken]
    refine ⟨[], ?_, List.forall_mem_nil _⟩
    rw [divisors, none]
    split_ifs <;> rfl

theorem abs_writtenValue_le (hx : x.toRat? = some v) (size : |v| ≤ 2 ^ r) :
    |writtenValue v| ≤ 2 ^ (r + 1) := by
  have grid := Binary64.onGrid_of_toRat? hx
  rw [abs_writtenValue grid, pow_succ']
  exact (writtenSize_le grid).trans (by gcongr)

theorem exists_bounded_candidates (hx : x.IsBounded r) (hy : y.IsBounded r) :
    ∃ cands, candidateRoots (.double x) (.double y) = .ok cands ∧ ∀ v ∈ cands, |v| ≤ 2 ^ (r + 1) := by
  obtain ⟨v, hv, sizeV⟩ := hx
  obtain ⟨w, hw, sizeW⟩ := hy
  obtain ⟨ps, listedP, boundP⟩ := exists_divisors hv true
  obtain ⟨qs, listedQ, boundQ⟩ := exists_divisors hw false
  have constant : (Number.double x).toRat = .ok (writtenValue v) := exact_eq_writtenValue hv
  have leading : (Number.double y).toRat = .ok (writtenValue w) := exact_eq_writtenValue hw
  have grows : (2 : ℚ) ^ r ≤ 2 ^ (r + 1) := pow_le_pow_right₀ one_le_two (Nat.le_succ r)
  refine ⟨_, candidateRoots_eq listedP listedQ constant leading, fun u hu => ?_⟩
  simp only [mem_withoutRepeats, List.mem_cons, List.mem_append, List.mem_map, List.mem_flatMap] at hu
  rcases hu with ((rfl | ⟨p, hp, rfl⟩) | rfl | ⟨q, hq, rfl⟩) | ⟨p, hp, q, hq, rfl⟩
  · exact abs_writtenValue_le hv sizeV
  · exact ((boundP p hp).2.trans sizeV).trans grows
  · exact abs_writtenValue_le hw sizeW
  · exact ((boundQ q hq).2.trans sizeW).trans grows
  · have one : (1 : ℚ) ≤ |(q : ℚ)| := by exact_mod_cast Int.one_le_abs (boundQ q hq).1
    rw [abs_div]
    exact (div_le_self (abs_nonneg _) one).trans (((boundP p hp).2.trans sizeV).trans grows)

end Numbers

section Sums

variable {cs : List ℚ}

theorem totalSize_le {B : ℚ} (h : ∀ c ∈ cs, |c| ≤ B) : totalSize cs ≤ cs.length * B := by
  induction cs with
  | nil => simp [totalSize]
  | cons c rest ih =>
    have first := h c List.mem_cons_self
    have others := ih fun d hd => h d (List.mem_cons_of_mem c hd)
    rw [totalSize_cons, List.length_cons, Nat.cast_succ]
    linarith

/-- Until a sum is not zero, the sums are the coefficients. -/
theorem exists_first_sum (kept : ∀ c ∈ sum :: cs, c ≠ 0 → (Binary64.round c).isZero = false) :
    ∀ q ∈ ((sumsAfter root sum cs).map Binary64.round).find? fun q => !q.isZero,
      ∃ c ∈ sum :: cs, c ≠ 0 ∧ q = .round c := by
  have none : (Binary64.round 0).isZero = true :=
    (Binary64.isZero_iff (Binary64.toRat?_round onGrid_zero)).mpr rfl
  induction cs generalizing sum with
  | nil =>
    intro q hq
    by_cases zero : sum = 0
    · simp [sumsAfter, zero, none] at hq
    · have own := kept sum List.mem_cons_self zero
      simp only [sumsAfter, List.map_singleton, List.find?_singleton, own, Bool.not_false, if_true,
        Option.mem_def, Option.some.injEq] at hq
      exact ⟨sum, List.mem_cons_self, zero, hq.symm⟩
  | cons c rest ih =>
    intro q hq
    rw [sumsAfter, List.map_cons] at hq
    by_cases zero : sum = 0
    · rw [zero, List.find?_cons_of_neg (by rw [none]; decide), zero_mul, add_zero] at hq
      obtain ⟨d, hd, found⟩ := ih (fun e he => kept e (List.mem_cons_of_mem sum he)) q hq
      exact ⟨d, List.mem_cons_of_mem sum hd, found⟩
    · rw [List.find?_cons_of_pos (by rw [kept sum List.mem_cons_self zero]; rfl)] at hq
      exact ⟨sum, List.mem_cons_self, zero, (Option.some.inj hq).symm⟩

end Sums

section Texts

/-- In some letter that can be read back the terms are canonical, of ordinary size, and led by the
highest power. -/
def Member.IsSettled (r : ℕ) (p : Member) : Prop := ∃ l, IsReadable l ∧ p.IsCanonicalIn l r ∧ p.IsLed

/-- A text that writes a settled member. -/
def IsSettledText (r : ℕ) (text : String) : Prop := ∃ m : Member, m.IsWrittenAs text ∧ m.IsSettled r

/-- The polynomial, if there is one, is in one letter that can be read back, with ordinary sums. -/
def Equation.IsOrdinary (r : ℕ) (f : Equation) : Prop :=
  ∀ p, f.polynomial = .ok p → ∃ l, IsReadable l ∧ p.HasOrdinarySums l r

variable {s : ℕ} {p : Member} {f : Equation} {text : String}

theorem Member.IsSettled.mono (h : p.IsSettled r) (le : r ≤ s) : p.IsSettled s := by
  obtain ⟨l, hl, canonical, led⟩ := h
  exact ⟨l, hl, canonical.mono le, led⟩

theorem Powers.isSettled_member {q : Powers} (hl : IsReadable l) (degree : q.degree < 2 ^ 53)
    (coefficients : ∀ k, (q.coefficient k).IsOrdinary r) : (q.member l).IsSettled r := by
  have terms : ∀ t ∈ (q.member l).terms, ∃ k ∈ q.exponents, t = q.term l k ∧ t.natExponent = k := by
    intro t ht
    obtain ⟨k, hk, rfl⟩ := List.mem_map.mp ht
    exact ⟨k, hk, rfl, q.natExponent_term hk⟩
  have canonical : (q.member l).IsCanonicalIn l r := by
    refine ⟨⟨⟨fun t ht => ?_, ?_, fun t ht => ?_⟩, fun t ht => ?_⟩, fun t ht => ?_⟩
    · obtain ⟨k, hk, rfl, -⟩ := terms t ht
      rw [Powers.term, Term.ofPower_eq]
      exact Term.isPowerOf_literalOf (q.isDouble hk) _
    · refine List.pairwise_map.mpr (q.ordered.imp_of_mem fun hj hk above => ?_)
      rw [q.natExponent_term hj, q.natExponent_term hk]
      exact above.ne'
    · obtain ⟨k, hk, -, same⟩ := terms t ht
      rw [same]
      exact (q.le_degree hk).trans_lt degree
    · obtain ⟨k, -, rfl, -⟩ := terms t ht
      rw [Powers.term, Term.ofPower_eq]
      exact coefficients k
    · obtain ⟨k, -, same, exponent⟩ := terms t ht
      rw [exponent, same, Powers.term, Term.ofPower_eq]
  refine ⟨l, hl, canonical, fun _ => ?_⟩
  have top : q.degree ∈ q.exponents := List.mem_cons_self
  have leading := canonical.likeSum_eq (List.mem_map_of_mem top)
  rw [q.natExponent_term top] at leading
  rw [q.writtenDegree_member, leading, Binary64.isZero_unsignedZero, Powers.term, Term.ofPower_eq]
  · exact q.isZero_coefficient_degree
  · exact (canonical.coefficients _ (List.mem_map_of_mem top)).isFinite

theorem isSettledText_linearFactor (hl : IsReadable l) (hx : x.IsBounded r) (low : 67 ≤ r)
    (high : r ≤ 900) : IsSettledText (r + 2) (linearFactor x (String.singleton l)) := by
  obtain ⟨q, degree, written, values⟩ := exists_isWrittenAs_linearFactor hl.isAlpha hx.isFinite
  refine ⟨_, written, Powers.isSettled_member hl (by rw [degree]; decide) fun k => ?_⟩
  obtain ⟨v, hv, value⟩ := values k
  obtain ⟨w, hw, size⟩ := hx
  have moderate := settledSize_isModerate (Binary64.onGrid_of_toRat? hw) size low high
  refine ⟨v, hv, ?_⟩
  rcases value with rfl | same
  · exact Binary64.isModerate_one (r + 2)
  · rw [Binary64.toRat_eq hw] at same
    have nonneg := settledSize_nonneg (Binary64.onGrid_of_toRat? hw)
    rw [IsModerate, ← abs_eq_zero, same]
    rwa [IsModerate, abs_of_nonneg nonneg] at moderate

end Texts

section Written

variable {cs : List Binary64} {c : ℚ}

theorem toRat?_round_writtenValue (hx : x.toRat? = some v) (size : |v| ≤ 2 ^ (900 : ℕ)) :
    (Binary64.round (writtenValue v)).toRat? = x.reread.toRat? := by
  have bound : |writtenValue v| ≤ 2 ^ (1000 : ℕ) :=
    (abs_writtenValue_le hx size).trans (pow_le_pow_right₀ one_le_two (by decide))
  rw [Binary64.toRat?_round_of_abs_le bound, toRat?_reread hx, writtenValue, settledSize]
  split_ifs
  · rw [Binary64.gridValue_neg]
  · rfl

theorem isZero_round_writtenValue (hx : x.toRat? = some v) (size : |v| ≤ 2 ^ (900 : ℕ))
    (nonzero : writtenValue v ≠ 0) : (Binary64.round (writtenValue v)).isZero = false ∧
      (Binary64.round (writtenValue v)).reread.isZero = false := by
  have grid := Binary64.onGrid_of_toRat? hx
  have written : writtenSize v ≠ 0 := by rwa [← abs_writtenValue grid, abs_ne_zero]
  have settled : settledSize v ≠ 0 := by
    intro zero
    have moderate := writtenSize_isModerate grid size (by decide)
    have near : |settledSize v - writtenSize v| ≤ ((1 + 1 / 2 ^ 53) ^ 1 - 1) * |writtenSize v| :=
      Binary64.isWithin_gridValue (moderate.mono (by decide))
    rw [zero, zero_sub, abs_neg] at near
    linarith [abs_pos.mpr written]
  have once := toRat?_round_writtenValue hx size
  have finite : x.isFinite = true := by rw [Binary64.isFinite, hx, Option.isSome_some]
  have value : x.reread.toRat? ≠ some 0 := by
    rw [toRat?_reread hx]
    split_ifs <;> simpa using settled
  have twice : (Binary64.round (writtenValue v)).reread.toRat? = x.reread.toRat? := by
    obtain ⟨u, hu⟩ := Option.isSome_iff_exists.mp (Binary64.isFinite_reread finite)
    rw [toRat?_reread (once.trans hu), ← toRat?_reread hu, Binary64.toRat?_reread_reread finite]
  simp only [Binary64.isZero, once, twice, decide_eq_false_iff_not]
  exact ⟨value, value⟩

/-- The numbers that coefficients are written as. -/
def writtenValues (cs : List Binary64) : List ℚ := cs.map fun x => writtenValue x.toRat

variable (bounded : ∀ x ∈ cs, x.IsBounded r)

include bounded

theorem mapM_exact_of_isBounded : cs.mapM exact = .ok (writtenValues cs) := by
  refine mapM_eq_ok fun x hx => ?_
  obtain ⟨v, hv, -⟩ := bounded x hx
  rw [exact_eq_writtenValue hv, Binary64.toRat_eq hv]

theorem abs_le_of_mem_writtenValues (hc : c ∈ writtenValues cs) : |c| ≤ 2 ^ (r + 1) := by
  obtain ⟨x, hx, rfl⟩ := List.mem_map.mp hc
  obtain ⟨v, hv, size⟩ := bounded x hx
  rw [Binary64.toRat_eq hv]
  exact abs_writtenValue_le hv size

theorem kept_of_mem_writtenValues (high : r ≤ 900) (hc : c ∈ writtenValues cs) (nonzero : c ≠ 0) :
    (Binary64.round c).isZero = false ∧ (Binary64.round c).reread.isZero = false := by
  obtain ⟨x, hx, rfl⟩ := List.mem_map.mp hc
  obtain ⟨v, hv, size⟩ := bounded x hx
  rw [Binary64.toRat_eq hv] at nonzero ⊢
  exact isZero_round_writtenValue hv (size.trans (pow_le_pow_right₀ one_le_two high)) nonzero

/-- Both factors of a division without remainder are settled. A hundred coefficients grow by eight
bits, and rounding, writing and reading add the others. -/
theorem exists_settled_factors (hl : IsReadable l) (some : cs ≠ []) (short : cs.length ≤ 101)
    (size : |root| ≤ 2 ^ (r + 1)) (zero : denseValue (writtenValues cs) root = 0) (low : 67 ≤ r)
    (high : r ≤ 800) : ∃ division table,
      syntheticDivision (cs.map .double) (.exact root) = .ok division ∧
      division.table cs root = .ok table ∧
      IsSettledText (r + 11) (Member.ofCoefficients table.quotient (String.singleton l)).text ∧
      IsSettledText (r + 11) (linearFactor table.root (String.singleton l)) := by
  have exact := mapM_exact_of_isBounded bounded
  have sizes := fun c => abs_le_of_mem_writtenValues (c := c) bounded
  have kept := fun c => kept_of_mem_writtenValues (c := c) bounded (by omega)
  have count : (writtenValues cs).length = cs.length := List.length_map _
  obtain ⟨first, others, shape⟩ : ∃ first others, writtenValues cs = first :: others :=
    List.exists_cons_of_length_pos (by rw [count]; exact List.length_pos_iff.mpr some)
  rw [shape] at exact sizes kept count zero
  have total : totalSize (first :: others) ≤ 2 ^ (r + 8) := by
    have grows : (101 : ℚ) * 2 ^ (r + 1) ≤ 2 ^ (r + 8) := by
      rw [pow_add 2 r 8, pow_succ]
      linarith [pow_pos (two_pos (α := ℚ)) r]
    have length : ((first :: others).length : ℚ) ≤ 101 := by
      rw [count]
      exact_mod_cast short
    refine (totalSize_le sizes).trans (le_trans ?_ grows)
    gcongr
  have sums : ∀ x ∈ (sumsAfter root first others).map Binary64.round, x.IsBounded (r + 9) := by
    intro x hx
    obtain ⟨u, hu, rfl⟩ := List.mem_map.mp hx
    exact Binary64.isBounded_round ((abs_sumsAfter_le zero u hu).trans total) (by omega)
  have rounded : (Binary64.round root).IsBounded (r + 9) :=
    (Binary64.isBounded_round size (by omega)).mono (by omega)
  have length : ((sumsAfter root first others).map Binary64.round).dropLast.length ≤ 2 ^ 53 := by
    rw [List.length_dropLast, List.length_map, length_sumsAfter]
    rw [List.length_cons] at count
    omega
  have leading : ∀ x ∈ ((sumsAfter root first others).map Binary64.round).dropLast.find? fun q => !q.isZero,
      x.reread.isZero = false := by
    intro x hx
    obtain ⟨c, hc, nonzero, rfl⟩ := exists_first_sum (fun c hc h => (kept c hc h).1) x
      ((List.dropLast_prefix _).find?_eq_some hx)
    exact (kept c hc nonzero).2
  obtain ⟨m, written, canonical, led⟩ := Member.readAgain_ofCoefficients length
    (fun x hx => sums x (List.mem_of_mem_dropLast hx)) leading hl.isAlpha (by omega) (by omega)
  exact ⟨_, _, syntheticDivision_eq exact root,
    table_divideSynthetically zero (size.trans (pow_le_pow_right₀ one_le_two (by omega)))
      (total.trans (pow_le_pow_right₀ one_le_two (by omega))) cs, ⟨m, written, l, hl, canonical, led⟩,
    isSettledText_linearFactor hl rounded (by omega) (by omega)⟩

end Written

section Factoring

variable {settings : Settings} {p : Member} {f : Equation}

theorem dropLeadingZeros_isSuffix (cs : List Binary64) : dropLeadingZeros cs <:+ cs := by
  induction cs using dropLeadingZeros.induct with
  | case1 c d rest zero ih =>
    rw [dropLeadingZeros, if_pos zero]
    exact ih.trans (List.suffix_cons c _)
  | case2 c d rest nonzero =>
    rw [dropLeadingZeros, if_neg nonzero]
  | case3 cs few =>
    rw [dropLeadingZeros]
    exact few

theorem checkDegree_meets {n : ℕ} (hx : x.toRat? = some (n : ℚ)) (text : String) :
    Meets Error.IsUserInput (fun _ => (n : ℤ) ≤ settings.maxDegree) (settings.checkDegree x text) := by
  rw [Settings.checkDegree, exceeds_eq_decide hx]
  split_ifs with beyond
  · rfl
  · have within : ¬ (settings.maxDegree : ℚ) < ((n : ℤ) : ℚ) := by simpa using beyond
    exact_mod_cast not_lt.mp within

theorem Member.HasOrdinarySums.coefficients_eq (h : p.HasOrdinarySums l r) : p.coefficients =
    .ok ((List.range (p.writtenDegree + 1)).reverse.map p.likeSum) :=
  h.isIn.hasNaturalExponents.coefficients.trans (h.isIn.coefficientsTo le_rfl)

/-- Factoring a polynomial of ordinary size fails only beyond the limit of the degree, and what it
gives is settled. -/
theorem factor_meets (h : f.IsOrdinary r) (limit : settings.maxDegree ≤ 100) (low : 67 ≤ r)
    (high : r ≤ 800) : (factor settings f).Meets Error.IsUserInput fun F =>
      ∀ s ∈ F.split, IsSettledText (r + 11) s.quotient ∧ IsSettledText (r + 11) s.divisor := by
  have unsplit : ∀ text reason, Work.Meets (do
      Work.record (.unfactorablePolynomial text reason)
      return (⟨text, none⟩ : Factorization)) Error.IsUserInput fun F =>
        ∀ s ∈ F.split, IsSettledText (r + 11) s.quotient ∧ IsSettledText (r + 11) s.divisor :=
    fun _ _ => Work.meets_record_bind (Work.meets_pure (by simp))
  unfold factor
  refine Work.meets_ofExcept_bind f.polynomial_failsForUser.eq_ok fun p₀ polynomial => ?_
  obtain ⟨l₀, hl₀, ordinary₀⟩ := h p₀ polynomial.1
  obtain ⟨l, hl, letter, ordinary⟩ := ordinary₀.normalize.exists_letter hl₀
  refine Work.meets_ofExcept_bind (checkDegree_meets ordinary.isIn.hasNaturalExponents.toRat?_degree _)
    fun _ within => ?_
  refine Work.Meets.ofExcept_bind ordinary.coefficients_eq ?_
  have suffix := dropLeadingZeros_isSuffix
    ((List.range (p₀.normalize.writtenDegree + 1)).reverse.map p₀.normalize.likeSum)
  dsimp only
  rw [letter]
  generalize dropLeadingZeros _ = dense at suffix ⊢
  have bounded : ∀ x ∈ dense, x.IsBounded r := by
    intro x hx
    obtain ⟨k, -, rfl⟩ := List.mem_map.mp (suffix.subset hx)
    exact (ordinary.sums k).isBounded
  have short : dense.length ≤ 101 := by
    have shorter := suffix.length_le
    rw [List.length_map, List.length_reverse, List.length_range] at shorter
    omega
  split
  · rename_i leading constant _ _ first last _
    split_ifs
    · exact unsplit _ _
    obtain ⟨cands, listed, sizes⟩ := exists_bounded_candidates
      (bounded constant (List.mem_of_getLast? last)) (bounded leading (List.mem_of_head? first))
    have shown : cands.mapM Binary64.ofRatChecked = .ok (cands.map .round) :=
      Binary64.mapM_ofRatChecked fun v hv => (sizes v hv).trans (pow_le_pow_right₀ one_le_two (by omega))
    obtain ⟨ws, exact, search⟩ := exists_findRoot hl (fun x hx => (bounded x hx).isFinite)
      (hasDoubleExponents_of_length_le (by omega))
    obtain rfl := Except.ok.inj ((mapM_exact_of_isBounded bounded).symm.trans exact)
    refine Work.Meets.ofExcept_bind listed (Work.Meets.ofExcept_bind shown ?_)
    refine Work.meets_record_bind (Work.Meets.ofExcept_bind (search cands) ?_)
    cases found : cands.find? fun x => denseValue (writtenValues dense) x = 0 with
    | none => exact unsplit _ _
    | some root =>
      have zero : denseValue (writtenValues dense) root = 0 := by simpa using List.find?_some found
      obtain ⟨division, table, divided, tabled, settled⟩ := exists_settled_factors bounded hl
        (fun none => by simp [none] at first) short (sizes root (List.mem_of_find?_eq_some found)) zero
        low high
      refine Work.meets_record_bind (Work.Meets.ofExcept_bind divided ?_)
      refine Work.Meets.ofExcept_bind tabled (Work.meets_record_bind (Work.meets_record_bind ?_))
      refine Work.meets_pure fun s hs => ?_
      obtain rfl := Option.some.inj hs
      exact settled
  · exact unsplit _ _

end Factoring

end FunctionStudy
