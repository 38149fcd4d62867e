import FunctionStudy.Proofs.Member.OneLetter
import FunctionStudy.Proofs.Solution.Direct

/-! How many roots a quadratic equation has. Status and number of roots depend on the discriminant
alone: on whether it counts as zero, is negative, or neither. -/

namespace FunctionStudy

open Binary64 (ofInt gridValue)

variable {settings : Settings} {l : Char}

section Count

/-- The number of roots that a discriminant allows. One that counts as zero allows a single root. -/
def rootCount (settings : Settings) (delta : Binary64) : ℕ :=
  if settings.isZero delta then 1 else if delta.lt .zero then 0 else 2

/-- The answer has the roots that the discriminant allows, and is impossible if there are none. -/
def EquationSolution.HasRootCount (s : EquationSolution) (n : ℕ) : Prop :=
  s.results.length = n ∧ s.status = if n = 0 then .impossible else .solved

theorem EquationSolution.HasRootCount.eq_iff {s t : EquationSolution} {m n : ℕ} (hs : s.HasRootCount m)
    (ht : t.HasRootCount n) : s.status = t.status ∧ s.results.length = t.results.length ↔ m = n := by
  rw [hs.1, ht.1, hs.2, ht.2, and_iff_right_iff_imp]
  rintro rfl
  rfl

variable {a b c x y : Binary64}

theorem Binary64.isZero_twice (h : a.isZero = false) : ((ofInt 2).mul a).isZero = false := by
  have two : (ofInt 2).toRat? = some 2 := by exact_mod_cast toRat?_ofInt (n := 2) (by norm_num)
  cases ha : a.toRat? with
  | none =>
    simp only [mul, two, ha, isZero]
    split_ifs <;> rfl
  | some v =>
    have nonzero : 2 * v ≠ 0 := mul_ne_zero two_ne_zero fun zero => by
      rw [← Bool.not_eq_true, isZero_iff ha] at h
      exact h zero
    obtain ⟨m, k, size, steps⟩ := (onGrid_of_toRat? ha).hasSteps
    have kept : gridValue (2 * v) = 2 * v :=
      gridValue_of_hasSteps ⟨m, k + 1, size, by
        rw [mul_assoc, steps, pow_succ]
        ring⟩
    have product : (ofInt 2).mul a = .round (2 * v) := by simp only [mul, two, ha, if_neg nonzero]
    rw [product, ← Bool.not_eq_true]
    intro zero
    unfold round at zero
    split_ifs at zero with vanished
    · exact nonzero (kept ▸ vanished.1)
    · have value := (isZero_iff (rfl : toRat? (.finite (gridValue (2 * v)) _) = _)).mp zero
      exact nonzero (kept ▸ value)
    · cases zero

theorem exists_quadraticRoots_length (settings : Settings) (nonzero : ((ofInt 2).mul a).isZero = false)
    (b delta : Binary64) :
    ∃ roots, quadraticRoots settings a b delta = .ok roots ∧
      (roots.getD []).length = rootCount settings delta ∧
      (roots.isSome = true ↔ rootCount settings delta ≠ 0) := by
  have quotient := fun x => Binary64.exists_div x nonzero
  cases zero : settings.isZero delta with
  | true =>
    obtain ⟨q, hq⟩ := quotient b.neg
    refine ⟨_, quadraticRoots_of_isZero zero hq, ?_⟩
    simp [rootCount, zero]
  | false =>
    cases negative : delta.lt .zero with
    | true =>
      refine ⟨_, quadraticRoots_of_lt zero negative a b, ?_⟩
      simp [rootCount, zero, negative]
    | false =>
      obtain ⟨low, hlow⟩ := quotient (b.neg.sub delta.sqrt)
      obtain ⟨high, hhigh⟩ := quotient (b.neg.add delta.sqrt)
      refine ⟨_, quadraticRoots_of_not_lt zero negative hlow hhigh, ?_⟩
      simp [rootCount, zero, negative, Binary64.sortAscending]

theorem solveQuadratic_hasRootCount (tells : settings.TellsIntegers) (ha : settings.isZero a = false)
    (equation : String) (height : Binary64) :
    (solveQuadratic settings equation height a b c).Returns fun s =>
      s.HasRootCount (rootCount settings (discriminant a b c)) := by
  obtain ⟨roots, computed, length, some⟩ := exists_quadraticRoots_length settings
    (Binary64.isZero_twice (tells.isZero_of_isZero ha)) b (discriminant a b c)
  refine (solveQuadratic_answers ha computed).imp fun s ⟨results, _, _, status⟩ => ⟨?_, ?_⟩
  · rw [results, length]
  · rw [status]
    simp only [some, ne_eq, ite_not]

end Count

section Equations

variable {left : Member}

/-- The zero on the right adds a negative zero, which changes no sum. -/
theorem Member.IsIn.append_negZero (h : left.IsIn l) :
    IsIn l ⟨left.terms ++ [.constant .negZero]⟩ ∧
      ∀ k, likeSum ⟨left.terms ++ [.constant .negZero]⟩ k = left.likeSum k := by
  refine ⟨fun t ht => ?_, fun k => ?_⟩
  · rcases List.mem_append.mp ht with ht | ht
    · exact h t ht
    · rw [List.mem_singleton.mp ht]
      exact Term.isPowerOf_constant l .negZero
  · have start := left.likeSum_ne_negZero k
    rw [likeSum] at start ⊢
    rw [List.filter_append, List.map_append, Binary64.sum, List.foldl_append, ← Binary64.sum]
    rw [List.filter_singleton]
    cases decide ((Term.constant .negZero).natExponent = k)
    · rfl
    · exact Binary64.add_negZero start

theorem Member.mem_append_negZero {t : Term} (ht : t ∈ left.terms ++ [.constant .negZero]) :
    t ∈ left.terms ∨ t.natExponent = 0 := by
  refine (List.mem_append.mp ht).imp_right fun zero => ?_
  rw [List.mem_singleton.mp zero]
  decide +kernel

theorem Member.writtenDegree_append_negZero :
    writtenDegree ⟨left.terms ++ [.constant .negZero]⟩ ≤ left.writtenDegree := by
  refine writtenDegree_le_iff.mpr fun t ht => ?_
  rcases mem_append_negZero ht with own | zero
  · exact natExponent_le_writtenDegree own
  · exact zero ▸ Nat.zero_le _

theorem solve_hasRootCount (tells : settings.TellsIntegers) (within : 2 ≤ settings.maxDegree)
    (hl : l ≠ 'y') (h : left.IsIn l) (degree : left.writtenDegree ≤ 2)
    (leading : settings.isZero (left.likeSum 2) = false) (depth : ℤ) :
    (solve settings "y=0" depth ⟨left, ⟨[.constant .zero]⟩⟩ none).Returns fun s =>
      s.HasRootCount
        (rootCount settings (discriminant (left.likeSum 2) (left.likeSum 1) (left.likeSum 0))) := by
  obtain ⟨whole, sums⟩ := h.append_negZero
  have hp := Equation.polynomial_eqZero_of_isIn hl h
  have written := Member.writtenDegree_append_negZero.trans degree
  generalize Member.mk (left.terms ++ [.constant .negZero]) = q at *
  have canonical : ∀ k, q.simplify.normalize.simplify.normalize.likeSum k = left.likeSum k := fun k => by
    rw [whole.simplify.normalize.simplify.likeSum_normalize, whole.simplify.normalize.likeSum_simplify,
      whole.simplify.likeSum_normalize, whole.likeSum_simplify, sums]
  have inLetter := whole.simplify.normalize.simplify.normalize
  generalize hr : q.simplify.normalize.simplify.normalize = r at *
  have two : r.writtenDegree = 2 := by
    apply le_antisymm
    · rw [← hr, Member.writtenDegree_normalize]
      refine whole.simplify.normalize.writtenDegree_simplify_le.trans ?_
      rw [Member.writtenDegree_normalize]
      exact whole.writtenDegree_simplify_le.trans written
    · apply Member.le_writtenDegree_of_likeSum
      rw [canonical]
      exact tells.isZero_of_isZero leading
  have value : r.degree.toRat? = some (((2 : ℕ) : ℤ) : ℚ) := by
    have natural := inLetter.hasNaturalExponents.toRat?_degree
    rw [two] at natural
    exact_mod_cast natural
  have inside : isBeyond settings (.double r.degree) = false := exceeds_eq_false value within
  have atTwo : solvingDegree settings r none = .ok 2 := by
    simp [solvingDegree, inside, Number.whole?_double value, bind, Except.bind, pure, Except.pure]
  have coefficients : r.coefficientsTo 2 = .ok [left.likeSum 2, left.likeSum 1, left.likeSum 0] := by
    have dense := inLetter.coefficientsTo two.le
    have exponents : (List.range (2 + 1)).reverse = [2, 1, 0] := by decide
    rw [exponents, List.map_congr_left fun k _ => canonical k] at dense
    exact dense
  unfold solve solveWith
  refine Work.Returns.ofExcept_bind hp ?_
  rw [hr]
  refine Work.Returns.ofExcept_bind atTwo (Work.Returns.ofExcept_bind axisHeight_zero ?_)
  refine Work.Returns.record_bind ?_
  rw [if_neg (by decide)]
  refine Work.Returns.ofExcept_bind coefficients ?_
  exact solveQuadratic_hasRootCount tells leading _ _

end Equations

section Errors

variable {a b c : ℚ} {x y z : Binary64} {u v w : ℚ}

/-- What a computed discriminant may be away from the exact one. -/
def discriminantError (a b c : ℚ) : ℚ := (b ^ 2 + 4 * |a * c|) / 2 ^ 50

/-- The last rounding, of a difference of moderate numbers, is small against what is subtracted. -/
theorem abs_gridValue_sub_le_size {d s : ℚ} (hd : |d| ≤ 2 * s) (hs : s = 0 ∨ 1 / 2 ^ (1000 : ℕ) ≤ s) :
    |gridValue d - d| ≤ 2 * s / 2 ^ 53 := by
  rcases hs with rfl | least
  · rw [mul_zero] at hd
    rw [abs_nonpos_iff.mp hd, sub_zero, Binary64.gridValue_of_onGrid onGrid_zero]
    simp
  · rcases Binary64.abs_gridValue_sub_le_relative d with relative | absolute
    · exact relative.trans (div_le_div_of_nonneg_right hd (by positivity))
    · refine absolute.trans (le_trans ?_ (div_le_div_of_nonneg_right (mul_le_mul_of_nonneg_left least
        (by norm_num : (0 : ℚ) ≤ 2)) (by positivity)))
      rw [mul_one_div, div_div, ← pow_add]
      calc (1 : ℚ) / 2 ^ (1075 : ℕ) ≤ 1 / 2 ^ (1000 + 53) :=
            one_div_le_one_div_of_le (by positivity) (pow_le_pow_right₀ one_le_two (by decide))
        _ ≤ 2 / 2 ^ (1000 + 53) := div_le_div_of_nonneg_right (by norm_num) (by positivity)

theorem IsModerate.eq_zero_or_le {r : ℕ} (h : IsModerate r u) (hr : r ≤ 1000) :
    u = 0 ∨ 1 / 2 ^ (1000 : ℕ) ≤ |u| := (h.mono hr).imp_right And.left

theorem abs_four_mul (a c : ℚ) : |4 * a * c| = 4 * |a * c| := by
  rw [mul_assoc, abs_mul, abs_of_pos (by norm_num : (0 : ℚ) < 4)]

theorem isModerate_four : IsModerate 2 4 := .inr ⟨by norm_num, by norm_num⟩

/-- The two sides of the difference: three roundings make the square, and four the product. -/
theorem exists_discriminant_sides (ha : x.toRat? = some u) (hb : y.toRat? = some v)
    (hc : z.toRat? = some w) (nearA : IsWithin 1 u a) (nearB : IsWithin 1 v b) (nearC : IsWithin 1 w c)
    (moderateA : IsModerate 400 a) (moderateB : IsModerate 400 b) (moderateC : IsModerate 400 c) :
    ∃ p g, (y.mul y).toRat? = some p ∧ (((ofInt 4).mul x).mul z).toRat? = some g ∧
      |p - b * b| ≤ 4 / 2 ^ 53 * (b * b) ∧ |g - 4 * a * c| ≤ 5 / 2 ^ 53 * (4 * |a * c|) := by
  have four : (ofInt 4).toRat? = some 4 := by exact_mod_cast Binary64.toRat?_ofInt (n := 4) (by norm_num)
  have sizeA := nearA.isModerate (by decide) moderateA
  have sizeB := nearB.isModerate (by decide) moderateB
  have sizeC := nearC.isModerate (by decide) moderateC
  obtain ⟨p, hp, nearP⟩ := Binary64.exists_mul_isWithin hb hb ((sizeB.mul sizeB).mono (by decide))
  obtain ⟨f, hf, nearF⟩ :=
    Binary64.exists_mul_isWithin four ha ((isModerate_four.mul sizeA).mono (by decide))
  have sizeF := nearF.isModerate (by decide) (isModerate_four.mul sizeA)
  obtain ⟨g, hg, nearG⟩ := Binary64.exists_mul_isWithin hf hc ((sizeF.mul sizeC).mono (by decide))
  have square : IsWithin (1 + (1 + 1)) p (b * b) := nearP.trans (nearB.mul nearB)
  have product : IsWithin (1 + (1 + (0 + 1) + 1)) g (4 * a * c) :=
    nearG.trans ((nearF.trans ((isWithin_refl 4).mul nearA)).mul nearC)
  rw [IsWithin, abs_mul_self] at square
  rw [IsWithin, abs_four_mul] at product
  have third : ((1 : ℚ) + 1 / 2 ^ 53) ^ (1 + (1 + 1)) - 1 ≤ 4 / 2 ^ 53 := by norm_num
  have fourth : ((1 : ℚ) + 1 / 2 ^ 53) ^ (1 + (1 + (0 + 1) + 1)) - 1 ≤ 5 / 2 ^ 53 := by norm_num
  exact ⟨p, g, hp, hg, square.trans (mul_le_mul_of_nonneg_right third (mul_self_nonneg b)),
    product.trans (mul_le_mul_of_nonneg_right fourth (by positivity))⟩

theorem discriminant_size (moderateA : IsModerate 400 a) (moderateB : IsModerate 400 b)
    (moderateC : IsModerate 400 c) :
    (b * b + 4 * |a * c| = 0 ∨ 1 / 2 ^ (1000 : ℕ) ≤ b * b + 4 * |a * c|) ∧
      b * b + 4 * |a * c| ≤ 2 ^ (900 : ℕ) := by
  have square := moderateB.mul moderateB
  have product := moderateA.mul moderateC
  have nonneg := mul_self_nonneg b
  constructor
  · rcases square.eq_zero_or_le (by decide) with noSquare | large
    · rcases product.eq_zero_or_le (by decide) with noProduct | large
      · exact .inl (by rw [noSquare, noProduct, abs_zero, mul_zero, add_zero])
      · refine .inr (large.trans ?_)
        linarith [abs_nonneg (a * c)]
    · rw [abs_mul_self] at large
      exact .inr (large.trans (le_add_of_nonneg_right (by positivity)))
  · have first := (square.mono (s := 890) (by decide)).abs_le
    have second := ((isModerate_four.mul product).mono (s := 890) (by decide)).abs_le
    rw [abs_mul_self] at first
    rw [← mul_assoc, abs_four_mul] at second
    calc b * b + 4 * |a * c| ≤ 2 ^ (890 : ℕ) + 2 ^ (890 : ℕ) := add_le_add first second
      _ = 2 ^ (891 : ℕ) := by rw [← two_mul, ← pow_succ']
      _ ≤ 2 ^ (900 : ℕ) := pow_le_pow_right₀ one_le_two (by decide)

theorem exists_discriminant (ha : x.toRat? = some u) (hb : y.toRat? = some v) (hc : z.toRat? = some w)
    (nearA : IsWithin 1 u a) (nearB : IsWithin 1 v b) (nearC : IsWithin 1 w c)
    (moderateA : IsModerate 400 a) (moderateB : IsModerate 400 b) (moderateC : IsModerate 400 c) :
    ∃ d, (discriminant x y z).toRat? = some d ∧
      |d - (b ^ 2 - 4 * a * c)| ≤ discriminantError a b c := by
  obtain ⟨p, g, hp, hg, first, second⟩ :=
    exists_discriminant_sides ha hb hc nearA nearB nearC moderateA moderateB moderateC
  obtain ⟨least, limit⟩ := discriminant_size moderateA moderateB moderateC
  have nonneg := mul_self_nonneg b
  have difference := abs_sub (p - b * b) (g - 4 * a * c)
  have sides : p - b * b - (g - 4 * a * c) = p - g - (b * b - 4 * a * c) := by ring
  rw [sides] at difference
  have size : |p - g| ≤ 2 * (b * b + 4 * |a * c|) := by
    have exact := abs_sub (b * b) (4 * a * c)
    rw [abs_mul_self, abs_four_mul] at exact
    have away := abs_sub_abs_le_abs_sub (p - g) (b * b - 4 * a * c)
    clear least limit
    linarith [abs_nonneg (a * c)]
  refine ⟨_, Binary64.toRat?_sub_eq_gridValue hp hg (size.trans ?_), ?_⟩
  · calc 2 * (b * b + 4 * |a * c|) ≤ 2 * 2 ^ (900 : ℕ) := by gcongr
      _ = 2 ^ (901 : ℕ) := (pow_succ' 2 900).symm
      _ ≤ 2 ^ (1000 : ℕ) := pow_le_pow_right₀ one_le_two (by decide)
  · have last := abs_gridValue_sub_le_size size least
    have split := abs_add_le (gridValue (p - g) - (p - g)) (p - g - (b * b - 4 * a * c))
    rw [sub_add_sub_cancel] at split
    clear least limit
    rw [discriminantError, sq b]
    linarith [abs_nonneg (a * c)]

end Errors

section Classes

variable {delta : Binary64} {d D e t : ℚ}

/-- A discriminant within the tolerance, also after the error of the computation, counts as zero. -/
theorem rootCount_of_abs_add_le (tolerance : settings.zeroTolerance.toRat? = some t)
    (hd : delta.toRat? = some d) (near : |d - D| ≤ e) (small : |D| + e ≤ t) :
    rootCount settings delta = 1 := by
  have size : |d| ≤ t := by linarith [abs_sub_abs_le_abs_sub d D]
  rw [rootCount, if_pos]
  exact (Binary64.le_iff (Binary64.toRat?_abs hd) tolerance).mpr size

/-- A discriminant outside of the tolerance by more than the error has its own sign. -/
theorem rootCount_of_add_lt (tolerance : settings.zeroTolerance.toRat? = some t) (nonneg : 0 ≤ t)
    (hd : delta.toRat? = some d) (near : |d - D| ≤ e) (large : t + e < |D|) :
    rootCount settings delta = if D < 0 then 0 else 2 := by
  have size : t < |d| := by
    have := abs_sub_abs_le_abs_sub D d
    rw [abs_sub_comm] at this
    linarith
  have other : settings.isZero delta = false := by
    rw [← Bool.not_eq_true, Settings.isZero, Binary64.le_iff (Binary64.toRat?_abs hd) tolerance, not_le]
    exact size
  have sign : d < 0 ↔ D < 0 := by
    obtain ⟨low, high⟩ := abs_le.mp near
    constructor <;> intro negative
    · by_contra positive
      rw [abs_of_nonneg (not_lt.mp positive)] at large
      linarith
    · rw [abs_of_neg negative] at large
      linarith
  rw [rootCount, other, if_neg Bool.false_ne_true]
  simp only [Binary64.lt_iff hd Binary64.toRat?_zero, sign]

end Classes

end FunctionStudy
