import Mathlib.Tactic.LinearCombination
import FunctionStudy.Proofs.Binary64.SquareRoot
import FunctionStudy.Solution

/-! Quadratics with integer coefficients up to `2^25`: the discriminant is exact, and so are integer
roots. How near other roots are to the real ones is not claimed here. -/

namespace FunctionStudy

open Binary64 (ofInt toRat?_ofInt)

/-- The tolerance tells every integer but zero from zero. -/
def Settings.TellsIntegers (s : Settings) : Prop :=
  ∃ t, s.zeroTolerance.toRat? = some t ∧ 0 ≤ t ∧ t < 1

theorem Settings.tellsIntegers_defaults : Settings.defaults.TellsIntegers :=
  ⟨Settings.defaults.zeroTolerance.toRat, by decide +kernel, by decide +kernel, by decide +kernel⟩

section Integers

variable {settings : Settings} {x y : Binary64} {m n r : ℤ}

theorem Settings.TellsIntegers.isZero_eq (h : settings.TellsIntegers)
    (hx : x.toRat? = some (m : ℚ)) : settings.isZero x = decide (m = 0) := by
  obtain ⟨t, tolerance, nonneg, below⟩ := h
  rw [Bool.eq_iff_iff, Settings.isZero, Binary64.le_iff (Binary64.toRat?_abs hx) tolerance,
    decide_eq_true_iff]
  constructor
  · intro small
    have size : |(m : ℚ)| < 1 := small.trans_lt below
    exact Int.abs_lt_one_iff.mp (by exact_mod_cast size)
  · rintro rfl
    simpa using nonneg

theorem Settings.TellsIntegers.isZero_of_isZero (tells : settings.TellsIntegers)
    (h : settings.isZero x = false) : x.isZero = false := by
  rw [← Bool.not_eq_true]
  intro zero
  rw [Binary64.isZero, decide_eq_true_iff] at zero
  have value : x.toRat? = some ((0 : ℤ) : ℚ) := by rw [zero, Int.cast_zero]
  rw [tells.isZero_eq value] at h
  cases h

theorem Binary64.toRat?_mul_intCast (hx : x.toRat? = some (m : ℚ)) (hy : y.toRat? = some (n : ℚ))
    (small : |m * n| ≤ 2 ^ 53) : (x.mul y).toRat? = some ((m * n : ℤ) : ℚ) := by
  have grid := onGrid_intCast small
  rw [Int.cast_mul] at grid ⊢
  exact toRat?_mul hx hy grid

theorem Binary64.toRat?_sub_intCast (hx : x.toRat? = some (m : ℚ)) (hy : y.toRat? = some (n : ℚ))
    (small : |m - n| ≤ 2 ^ 53) : (x.sub y).toRat? = some ((m - n : ℤ) : ℚ) := by
  have grid := onGrid_intCast small
  rw [Int.cast_sub] at grid ⊢
  exact toRat?_sub hx hy grid

theorem Binary64.toRat?_add_intCast (hx : x.toRat? = some (m : ℚ)) (hy : y.toRat? = some (n : ℚ))
    (small : |m + n| ≤ 2 ^ 53) : (x.add y).toRat? = some ((m + n : ℤ) : ℚ) := by
  have grid := onGrid_intCast small
  rw [Int.cast_add] at grid ⊢
  exact toRat?_add hx hy grid

theorem Binary64.exists_toRat?_add {a b : ℚ} (hx : x.toRat? = some a) (hy : y.toRat? = some b)
    (small : |a + b| ≤ 2 ^ (1000 : ℕ)) : ∃ w, (x.add y).toRat? = some w ∧ |w| ≤ 2 * |a + b| := by
  by_cases zeros : x = .negZero ∧ y = .negZero
  · obtain ⟨rfl, rfl⟩ := zeros
    exact ⟨0, rfl, by simp⟩
  · rw [add_eq_round hx hy (not_and_or.mp zeros), toRat?_round_of_abs_le small]
    exact ⟨_, rfl, abs_gridValue_le _⟩

theorem Binary64.exists_div_eq (hx : x.toRat? = some (m : ℚ)) (hy : y.toRat? = some (n : ℚ))
    (nonzero : n ≠ 0) (h : m = r * n) (small : |r| ≤ 2 ^ 53) :
    ∃ q, x.div y = .ok q ∧ q.unsignedZero = ofInt r := by
  have divisor : (n : ℚ) ≠ 0 := Int.cast_ne_zero.mpr nonzero
  have quotient : (m : ℚ) / n = r := by
    rw [h, Int.cast_mul, mul_div_cancel_right₀ _ divisor]
  obtain ⟨q, hq, value⟩ := toRat?_div? hx hy divisor (quotient ▸ onGrid_intCast small)
  rw [quotient] at value
  exact ⟨q, by rw [div, hq], unsignedZero_eq value⟩

theorem Binary64.exists_div_isUnsigned {a b : ℚ} (hx : x.toRat? = some a) (hy : y.toRat? = some b)
    (nonzero : b ≠ 0) (small : |a / b| ≤ 2 ^ (1000 : ℕ)) :
    ∃ q, x.div y = .ok q ∧ q.unsignedZero.IsUnsigned := by
  obtain ⟨q, quotient, finite⟩ := exists_div_isFinite hx hy nonzero small
  exact ⟨q, quotient, isUnsigned_unsignedZero (toRat?_of_finite finite)⟩

end Integers

section Roots

variable {settings : Settings} {delta : Binary64} {a b c r s : ℤ}

theorem abs_mul_le {m n M N : ℤ} (hm : |m| ≤ M) (hn : |n| ≤ N) : |m * n| ≤ M * N := by
  have nonneg : 0 ≤ M := (abs_nonneg m).trans hm
  calc |m * n| = |m| * |n| := abs_mul m n
    _ ≤ M * N := by gcongr

theorem toRat?_discriminant (ha : |a| ≤ 2 ^ 25) (hb : |b| ≤ 2 ^ 25) (hc : |c| ≤ 2 ^ 25) :
    (discriminant (ofInt a) (ofInt b) (ofInt c)).toRat? = some ((b * b - 4 * a * c : ℤ) : ℚ) := by
  have four : |(4 : ℤ)| ≤ 4 := by norm_num
  have square := abs_mul_le hb hb
  have multiple := abs_mul_le four ha
  have product := abs_mul_le multiple hc
  have difference := abs_sub (b * b) (4 * a * c)
  refine Binary64.toRat?_sub_intCast ?_ ?_ (by omega)
  · exact Binary64.toRat?_mul_intCast (toRat?_ofInt (by omega)) (toRat?_ofInt (by omega)) (by omega)
  · refine Binary64.toRat?_mul_intCast ?_ (toRat?_ofInt (by omega)) (by omega)
    exact Binary64.toRat?_mul_intCast (toRat?_ofInt (by norm_num)) (toRat?_ofInt (by omega))
      (by omega)

theorem toRat?_twice (ha : |a| ≤ 2 ^ 25) :
    ((ofInt 2).mul (ofInt a)).toRat? = some ((2 * a : ℤ) : ℚ) := by
  have two : |(2 : ℤ)| ≤ 2 := by norm_num
  have product := abs_mul_le two ha
  exact Binary64.toRat?_mul_intCast (toRat?_ofInt (by norm_num)) (toRat?_ofInt (by omega)) (by omega)

theorem quadraticRoots_of_isZero {a b q : Binary64} (zero : settings.isZero delta = true)
    (hq : b.neg.div ((ofInt 2).mul a) = .ok q) :
    quadraticRoots settings a b delta = .ok (some [q.unsignedZero]) := by
  rw [quadraticRoots, zero, if_pos rfl, hq]
  rfl

theorem quadraticRoots_of_lt (zero : settings.isZero delta = false) (below : delta.lt .zero = true)
    (a b : Binary64) : quadraticRoots settings a b delta = .ok none := by
  rw [quadraticRoots, zero, if_neg Bool.false_ne_true, below, if_pos rfl]
  rfl

theorem quadraticRoots_of_not_lt (zero : settings.isZero delta = false)
    (above : delta.lt .zero = false) {a b low high : Binary64}
    (hlow : (b.neg.sub delta.sqrt).div ((ofInt 2).mul a) = .ok low)
    (hhigh : (b.neg.add delta.sqrt).div ((ofInt 2).mul a) = .ok high) :
    quadraticRoots settings a b delta =
      .ok (some (Binary64.sortAscending [low.unsignedZero, high.unsignedZero])) := by
  rw [quadraticRoots, zero, if_neg Bool.false_ne_true, above, if_neg Bool.false_ne_true]
  dsimp only
  rw [hlow, hhigh]
  rfl

theorem quadraticRoots_of_neg (tells : settings.TellsIntegers)
    (hd : delta.toRat? = some (r : ℚ)) (negative : r < 0) (a b : Binary64) :
    quadraticRoots settings a b delta = .ok none := by
  refine quadraticRoots_of_lt ?_ ?_ a b
  · rw [tells.isZero_eq hd, decide_eq_false negative.ne]
  · rw [Binary64.lt_iff hd Binary64.toRat?_zero]
    exact_mod_cast negative

theorem quadraticRoots_of_pos (tells : settings.TellsIntegers) (hd : delta.toRat? = some (r : ℚ))
    (positive : 0 < r) {a b low high : Binary64}
    (hlow : (b.neg.sub delta.sqrt).div ((ofInt 2).mul a) = .ok low)
    (hhigh : (b.neg.add delta.sqrt).div ((ofInt 2).mul a) = .ok high) :
    quadraticRoots settings a b delta =
      .ok (some (Binary64.sortAscending [low.unsignedZero, high.unsignedZero])) := by
  refine quadraticRoots_of_not_lt ?_ ?_ hlow hhigh
  · rw [tells.isZero_eq hd, decide_eq_false positive.ne']
  · rw [← Bool.not_eq_true, Binary64.lt_iff hd Binary64.toRat?_zero, not_lt]
    exact_mod_cast positive.le

theorem sortAscending_pair {x y : Binary64} (hx : x.IsUnsigned) (hy : y.IsUnsigned)
    (h : x.toRat < y.toRat) :
    Binary64.sortAscending [x, y] = [x, y] ∧ Binary64.sortAscending [y, x] = [x, y] := by
  have different : x ≠ y := by rintro rfl; exact lt_irrefl _ h
  have ordered : [x, y].Pairwise fun x y => x.toRat < y.toRat := by simpa using h
  have sorted : ∀ xs, xs.Perm [x, y] → Binary64.sortAscending xs = [x, y] := by
    intro xs perm
    have unsigned : ∀ z ∈ xs, z.IsUnsigned := by
      intro z hz
      rcases List.mem_pair.mp (perm.mem_iff.mp hz) with rfl | rfl
      · exact hx
      · exact hy
    have distinct : xs.Nodup := perm.nodup_iff.mpr (by simpa using different)
    refine List.Perm.eq_of_pairwise (fun a b _ _ ab ba => absurd ab ba.not_gt)
      (Binary64.pairwise_sortAscending unsigned distinct) ordered ?_
    exact (List.mergeSort_perm xs _).trans perm
  exact ⟨sorted _ .rfl, sorted _ (.swap x y [])⟩

/-- Which root comes first depends on the sign of the leading coefficient. -/
theorem exists_root_order (ha : a ≠ 0) (lt : r < s) (hr : |r| ≤ 2 ^ 25) (hs : |s| ≤ 2 ^ 25) :
    ∃ u v, a * (r + s) - |a * (s - r)| = u * (2 * a) ∧ a * (r + s) + |a * (s - r)| = v * (2 * a) ∧
      |u| ≤ 2 ^ 25 ∧ |v| ≤ 2 ^ 25 ∧
      Binary64.sortAscending [ofInt u, ofInt v] = [ofInt r, ofInt s] := by
  have value : ∀ {z : ℤ}, |z| ≤ 2 ^ 25 → (ofInt z).toRat = z := fun h =>
    Binary64.toRat_eq (toRat?_ofInt (by omega))
  have ordered : (ofInt r).toRat < (ofInt s).toRat := by
    rw [value hr, value hs]
    exact_mod_cast lt
  obtain ⟨inOrder, swapped⟩ := sortAscending_pair (Binary64.isUnsigned_ofInt (by omega))
    (Binary64.isUnsigned_ofInt (by omega)) ordered
  rcases ha.lt_or_gt with negative | positive
  · have size : |a * (s - r)| = -(a * (s - r)) :=
      abs_of_nonpos (mul_nonpos_of_nonpos_of_nonneg negative.le (by omega))
    exact ⟨s, r, by rw [size]; ring, by rw [size]; ring, hs, hr, swapped⟩
  · have size : |a * (s - r)| = a * (s - r) := abs_of_nonneg (mul_nonneg positive.le (by omega))
    exact ⟨r, s, by rw [size]; ring, by rw [size]; ring, hr, hs, inOrder⟩

theorem quadraticRoots_of_roots (tells : settings.TellsIntegers) (ha : a ≠ 0)
    (small : |a| ≤ 2 ^ 25) (sum : |a * (r + s)| ≤ 2 ^ 25) (hr : |r| ≤ 2 ^ 25) (hs : |s| ≤ 2 ^ 25)
    (le : r ≤ s) (hd : delta.toRat? = some (((a * (s - r)) * (a * (s - r)) : ℤ) : ℚ)) :
    quadraticRoots settings (ofInt a) (ofInt (-(a * (r + s)))) delta =
      .ok (some (if r = s then [ofInt r] else [ofInt r, ofInt s])) := by
  have twice := toRat?_twice small
  have nonzero : 2 * a ≠ 0 := by omega
  have opposite : (ofInt (-(a * (r + s)))).neg.toRat? = some ((a * (r + s) : ℤ) : ℚ) := by
    have value := Binary64.toRat?_neg (toRat?_ofInt (n := -(a * (r + s))) (by rw [abs_neg]; omega))
    rwa [← Int.cast_neg, neg_neg] at value
  rcases le.eq_or_lt with rfl | lt
  · obtain ⟨q, hq, root⟩ := Binary64.exists_div_eq opposite twice nonzero (r := r) (by ring) (by omega)
    rw [sub_self, mul_zero, mul_zero] at hd
    have zero : settings.isZero delta = true := by rw [tells.isZero_eq hd, decide_eq_true rfl]
    rw [quadraticRoots_of_isZero zero hq, root, if_pos rfl]
  · have size := abs_mul_le small ((abs_sub s r).trans (add_le_add hs hr))
    have root : delta.sqrt.toRat? = some ((|a * (s - r)| : ℤ) : ℚ) := by
      have square : delta.toRat? = some (((a * (s - r)).natAbs : ℚ) ^ 2) := by
        rw [hd, Nat.cast_natAbs, ← Int.cast_pow, sq_abs, sq]
      have positive : 0 < (a * (s - r)).natAbs :=
        Int.natAbs_pos.mpr (mul_ne_zero ha (sub_ne_zero.mpr lt.ne'))
      rw [Binary64.sqrt_square square positive, Int.natCast_natAbs, toRat?_ofInt (by rw [abs_abs]; omega)]
    obtain ⟨u, v, below, above, hu, hv, sorted⟩ := exists_root_order ha lt hr hs
    have lower := abs_sub (a * (r + s)) |a * (s - r)|
    have upper := abs_add_le (a * (r + s)) |a * (s - r)|
    rw [abs_abs] at lower upper
    have first := Binary64.toRat?_sub_intCast opposite root (by omega)
    have second := Binary64.toRat?_add_intCast opposite root (by omega)
    obtain ⟨low, hlow, lowRoot⟩ := Binary64.exists_div_eq first twice nonzero below (by omega)
    obtain ⟨high, hhigh, highRoot⟩ := Binary64.exists_div_eq second twice nonzero above (by omega)
    have positive : 0 < a * (s - r) * (a * (s - r)) :=
      mul_self_pos.mpr (mul_ne_zero ha (sub_ne_zero.mpr lt.ne'))
    rw [quadraticRoots_of_pos tells hd positive hlow hhigh, lowRoot, highRoot, sorted,
      if_neg lt.ne]

theorem exists_quadraticRoots (tells : settings.TellsIntegers) (ha : a ≠ 0)
    (small : |a| ≤ 2 ^ 25) (hb : |b| ≤ 2 ^ 25) (hd : delta.toRat? = some (r : ℚ)) (positive : 0 < r)
    (hr : r ≤ 2 ^ 54) : ∃ roots, quadraticRoots settings (ofInt a) (ofInt b) delta =
      .ok (some roots) ∧ ∀ x ∈ roots, x.IsUnsigned := by
  have twice := toRat?_twice small
  have nonzero : ((2 * a : ℤ) : ℚ) ≠ 0 := by exact_mod_cast mul_ne_zero two_ne_zero ha
  have least : 1 ≤ |((2 * a : ℤ) : ℚ)| := by
    exact_mod_cast Int.one_le_abs (mul_ne_zero two_ne_zero ha)
  have square : (r : ℚ) ≤ ((2 ^ 27 : ℕ) : ℚ) ^ 2 := by
    have bound : (r : ℚ) ≤ 2 ^ 54 := by exact_mod_cast hr
    exact bound.trans (by norm_num)
  have wide : (2 : ℚ) ^ 32 ≤ 2 ^ (1000 : ℕ) := pow_le_pow_right₀ one_le_two (by decide)
  obtain ⟨w, root, size⟩ := Binary64.exists_sqrt_le hd (by exact_mod_cast positive) square
    (le_trans (by norm_num) wide)
  have opposite := Binary64.toRat?_neg (toRat?_ofInt (n := b) (by omega))
  have first : |(-b : ℚ)| ≤ 2 ^ 25 := by rw [abs_neg]; exact_mod_cast hb
  have quotient : ∀ v : ℚ, |v| ≤ 2 ^ 32 → |v / ((2 * a : ℤ) : ℚ)| ≤ 2 ^ (1000 : ℕ) := by
    intro v hv
    rw [abs_div]
    calc |v| / |((2 * a : ℤ) : ℚ)| ≤ |v| / 1 := by gcongr
      _ = |v| := div_one _
      _ ≤ 2 ^ (1000 : ℕ) := hv.trans wide
  have lower := abs_add_le (-b : ℚ) (-w)
  have upper := abs_add_le (-b : ℚ) w
  rw [abs_neg w] at lower
  push_cast at size
  obtain ⟨u, below, hu⟩ :=
    Binary64.exists_toRat?_add opposite (Binary64.toRat?_neg root) (le_trans (by linarith) wide)
  obtain ⟨v, above, hv⟩ := Binary64.exists_toRat?_add opposite root (le_trans (by linarith) wide)
  obtain ⟨low, hlow, lowRoot⟩ :=
    Binary64.exists_div_isUnsigned below twice nonzero (quotient u (by linarith))
  obtain ⟨high, hhigh, highRoot⟩ :=
    Binary64.exists_div_isUnsigned above twice nonzero (quotient v (by linarith))
  refine ⟨_, quadraticRoots_of_pos tells hd positive hlow hhigh, fun x hx => ?_⟩
  rcases List.mem_pair.mp (Binary64.mem_sortAscending.mp hx) with rfl | rfl
  · exact lowRoot
  · exact highRoot

end Roots

end FunctionStudy
