import Mathlib.Algebra.QuadraticDiscriminant
import FunctionStudy.Proofs.Solution.Direct
import FunctionStudy.Proofs.Solution.Scaling

/-! Where the roots of an integer quadratic lie. With coefficients up to `2^25` nothing is rounded
before the final division, so rational roots are rounded once and different ones stay in order. -/

namespace FunctionStudy

open Polynomial
open Binary64 (ofInt toRat?_ofInt gridValue round)

namespace Binary64

variable {x y : Binary64} {u v : ℚ}

/-- A finite double that no other one is nearer to the number than. -/
def IsNearest (x : Binary64) (v : ℚ) : Prop :=
  ∃ u, x.toRat? = some u ∧ ∀ (y : Binary64) w, y.toRat? = some w → |u - v| ≤ |w - v|

theorem isNearest_of_toRat? (hx : x.toRat? = some (gridValue v)) : x.IsNearest v :=
  ⟨_, hx, fun _ _ hy => abs_gridValue_sub_le (onGrid_of_toRat? hy).hasSteps v⟩

/-- Rounding keeps numbers apart that differ by more than the roundings of both. -/
theorem gridValue_lt (hu : |u| ≤ 2 ^ 50 * (v - u)) (hv : |v| ≤ 2 ^ 50 * (v - u))
    (least : 1 / 2 ^ (1000 : ℕ) ≤ v - u) : gridValue u < gridValue v := by
  have apart : 0 < v - u := lt_of_lt_of_le (by positivity) least
  have tiny : (1 : ℚ) / 2 ^ (1075 : ℕ) ≤ (v - u) / 4 := by
    calc (1 : ℚ) / 2 ^ (1075 : ℕ) ≤ 1 / 2 ^ (1000 + 2) :=
          one_div_le_one_div_of_le (by positivity) (pow_le_pow_right₀ one_le_two (by decide))
      _ = 1 / 2 ^ (1000 : ℕ) / 4 := by rw [pow_add, div_div]; norm_num
      _ ≤ (v - u) / 4 := by gcongr
  have error : ∀ {w : ℚ}, |w| ≤ 2 ^ 50 * (v - u) → |gridValue w - w| ≤ (v - u) / 4 := by
    intro w hw
    rcases abs_gridValue_sub_le_relative w with relative | absolute
    · refine relative.trans ((div_le_div_of_nonneg_right hw (by positivity)).trans ?_)
      linarith
    · exact absolute.trans tiny
  have first := abs_le.mp (error hu)
  have second := abs_le.mp (error hv)
  linarith

theorem exists_div_eq_gridValue (hx : x.toRat? = some u) (hy : y.toRat? = some v) (nonzero : v ≠ 0)
    (small : |u / v| ≤ 2 ^ (1000 : ℕ)) : ∃ q, x.div y = .ok q ∧ q.unsignedZero.IsUnsigned ∧
      q.unsignedZero.toRat? = some (gridValue (u / v)) := by
  obtain ⟨q, quotient, value⟩ : ∃ q, x.div? y = some q ∧ q.toRat? = some (gridValue (u / v)) := by
    simp only [div?, hx, hy, if_neg nonzero]
    split_ifs with zero
    · refine ⟨_, rfl, ?_⟩
      rw [zero, zero_div, gridValue_of_onGrid onGrid_zero, toRat?_signedZero]
    · exact ⟨_, rfl, toRat?_round_of_abs_le small⟩
  exact ⟨q, by rw [div, quotient], isUnsigned_unsignedZero value, toRat?_unsignedZero value⟩

end Binary64

section Roots

variable {settings : Settings} {delta : Binary64} {a b c d m : ℤ} {u v w : ℚ}

/-- A double without a sign of zero that is the number rounded once. -/
def IsRounded (x : Binary64) (u : ℚ) : Prop := x.IsUnsigned ∧ x.toRat? = some (gridValue u)

theorem abs_div_twice_le (ha : a ≠ 0) (u : ℚ) : |u / (2 * a)| ≤ |u| := by
  have least : (1 : ℚ) ≤ |(a : ℚ)| := by exact_mod_cast Int.one_le_abs ha
  rw [abs_div, abs_mul, abs_two]
  exact div_le_self (abs_nonneg u) (by linarith)

theorem exists_div_twice (ha : a ≠ 0) (small : |a| ≤ 2 ^ 25) {x : Binary64} (hx : x.toRat? = some u)
    (size : |u| ≤ 2 ^ 30) :
    ∃ q, x.div ((ofInt 2).mul (ofInt a)) = .ok q ∧ IsRounded q.unsignedZero (u / (2 * a)) := by
  have divisor := toRat?_twice small
  push_cast at divisor
  have nonzero : (2 * a : ℚ) ≠ 0 := mul_ne_zero two_ne_zero (Int.cast_ne_zero.mpr ha)
  refine Binary64.exists_div_eq_gridValue hx divisor nonzero ?_
  calc |u / (2 * a)| ≤ |u| := abs_div_twice_le ha u
    _ ≤ 2 ^ 30 := size
    _ ≤ 2 ^ (1000 : ℕ) := pow_le_pow_right₀ one_le_two (by decide)

theorem exists_single_root (tells : settings.TellsIntegers) (ha : a ≠ 0) (small : |a| ≤ 2 ^ 25)
    (hb : |b| ≤ 2 ^ 25) (hd : delta.toRat? = some ((0 : ℤ) : ℚ)) :
    ∃ x, quadraticRoots settings (ofInt a) (ofInt b) delta = .ok (some [x]) ∧ IsRounded x (-b / (2 * a)) := by
  have opposite := Binary64.toRat?_neg (toRat?_ofInt (n := b) (by omega))
  have size : |(-b : ℚ)| ≤ 2 ^ 30 := by
    rw [abs_neg]
    exact_mod_cast hb.trans (by norm_num)
  obtain ⟨q, quotient, rounded⟩ := exists_div_twice ha small opposite size
  have zero : settings.isZero delta = true := by rw [tells.isZero_eq hd, decide_eq_true rfl]
  exact ⟨_, quadraticRoots_of_isZero zero quotient, rounded⟩

/-- Quotients of numerators that are at least 2 apart do not collapse. -/
theorem gridValue_div_lt {t : ℚ} (positive : 0 < t) (divisor : t ≤ 2 ^ 26) (apart : u + 2 ≤ v)
    (hu : |u| ≤ 2 ^ 30) (hv : |v| ≤ 2 ^ 30) : gridValue (u / t) < gridValue (v / t) := by
  have difference : 2 / t ≤ v / t - u / t := by
    rw [← sub_div]
    gcongr
    linarith only [apart]
  have size : ∀ {n : ℚ}, |n| ≤ 2 ^ 30 → |n / t| ≤ 2 ^ 50 * (v / t - u / t) := by
    intro n hn
    calc |n / t| = |n| / t := by rw [abs_div, abs_of_pos positive]
      _ ≤ 2 ^ 30 / t := by gcongr
      _ ≤ 2 ^ 50 * (2 / t) := by
        rw [mul_div_assoc']
        gcongr
        norm_num
      _ ≤ 2 ^ 50 * (v / t - u / t) := by gcongr
  refine Binary64.gridValue_lt (size hu) (size hv) (le_trans ?_ difference)
  calc (1 : ℚ) / 2 ^ (1000 : ℕ) ≤ 1 / 2 ^ 26 :=
        one_div_le_one_div_of_le (by norm_num) (pow_le_pow_right₀ one_le_two (by decide))
    _ ≤ 1 / t := one_div_le_one_div_of_le positive divisor
    _ ≤ 2 / t := by gcongr; norm_num

/-- The numerators of the two roots lie on both sides of `-b`, at least 2 apart. -/
theorem exists_numerators (hb : |b| ≤ 2 ^ 25) (root : delta.sqrt.toRat? = some w) (low : 1 ≤ w)
    (high : w ≤ 2 ^ 29) :
    ((ofInt b).neg.sub delta.sqrt).toRat? = some (gridValue (-b - w)) ∧
      ((ofInt b).neg.add delta.sqrt).toRat? = some (gridValue (-b + w)) ∧
      gridValue (-b - w) + 2 ≤ gridValue (-b + w) ∧
      |gridValue (-b - w)| ≤ 2 ^ 30 ∧ |gridValue (-b + w)| ≤ 2 ^ 30 := by
  have opposite := Binary64.toRat?_neg (toRat?_ofInt (n := b) (by omega))
  have bound : |(b : ℚ)| ≤ 2 ^ 25 := by exact_mod_cast hb
  have sides := abs_le.mp bound
  have ends := abs_le.mp hb
  have lower : |-(b : ℚ) - w| ≤ 2 ^ 30 := abs_le.mpr ⟨by linarith, by linarith⟩
  have upper : |-(b : ℚ) + w| ≤ 2 ^ 30 := abs_le.mpr ⟨by linarith, by linarith⟩
  have wide : (2 : ℚ) ^ 30 ≤ 2 ^ (1000 : ℕ) := pow_le_pow_right₀ one_le_two (by decide)
  have grid : ∀ {n : ℤ}, |n| ≤ 2 ^ 30 → gridValue n = n := fun h =>
    Binary64.gridValue_of_onGrid (onGrid_intCast (h.trans (by norm_num)))
  have rounded : ∀ {u : ℚ}, |u| ≤ 2 ^ 30 → |gridValue u| ≤ 2 ^ 30 := by
    intro u hu
    have thirty : gridValue ((2 ^ 30 : ℤ) : ℚ) = ((2 ^ 30 : ℤ) : ℚ) := grid (by norm_num)
    rw [← Binary64.gridValue_abs]
    calc gridValue |u| ≤ gridValue ((2 ^ 30 : ℤ) : ℚ) := Binary64.gridValue_mono (by exact_mod_cast hu)
      _ = 2 ^ 30 := by rw [thirty]; norm_num
  have below : gridValue (-b - w) ≤ ((-b - 1 : ℤ) : ℚ) := by
    rw [← grid (n := -b - 1) (abs_le.mpr ⟨by omega, by omega⟩)]
    refine Binary64.gridValue_mono ?_
    push_cast
    linarith
  have above : ((-b + 1 : ℤ) : ℚ) ≤ gridValue (-b + w) := by
    rw [← grid (n := -b + 1) (abs_le.mpr ⟨by omega, by omega⟩)]
    refine Binary64.gridValue_mono ?_
    push_cast
    linarith
  push_cast at below above
  exact ⟨Binary64.toRat?_sub_eq_gridValue opposite root (lower.trans wide),
    Binary64.toRat?_add_eq_gridValue opposite root (upper.trans wide), by linarith, rounded lower, rounded upper⟩

/-- The roots on both sides of the vertex come out in ascending order, whatever the sign of the leading
coefficient. -/
theorem exists_two_roots (tells : settings.TellsIntegers) (ha : a ≠ 0) (small : |a| ≤ 2 ^ 25)
    (hb : |b| ≤ 2 ^ 25) (hd : delta.toRat? = some (d : ℚ)) (positive : 0 < d)
    (root : delta.sqrt.toRat? = some w) (low : 1 ≤ w) (high : w ≤ 2 ^ 29) :
    ∃ x y, quadraticRoots settings (ofInt a) (ofInt b) delta = .ok (some [x, y]) ∧ x.lt y = true ∧
      IsRounded x (min (gridValue (-b - w) / (2 * a)) (gridValue (-b + w) / (2 * a))) ∧
      IsRounded y (max (gridValue (-b - w) / (2 * a)) (gridValue (-b + w) / (2 * a))) := by
  obtain ⟨first, second, apart, firstSize, secondSize⟩ := exists_numerators hb root low high
  obtain ⟨p, hp, below⟩ := exists_div_twice ha small first firstSize
  obtain ⟨q, hq, above⟩ := exists_div_twice ha small second secondSize
  have roots := quadraticRoots_of_pos tells hd positive hp hq
  have bound : |(a : ℚ)| ≤ 2 ^ 25 := by exact_mod_cast small
  have sides := abs_le.mp bound
  -- Below 0 the division exchanges the two roots, and the sorting exchanges them back.
  rcases ha.lt_or_gt with negative | positive
  · have leading : (a : ℚ) < 0 := by exact_mod_cast negative
    have less : gridValue (-b + w) / (2 * a) < gridValue (-b - w) / (2 * a) :=
      div_lt_div_of_neg_of_lt (by linarith) (by linarith)
    have order := gridValue_div_lt (t := -(2 * a)) (by linarith) (by linarith)
      (u := -gridValue (-b + w)) (v := -gridValue (-b - w)) (by linarith) (by rwa [abs_neg]) (by rwa [abs_neg])
    rw [neg_div_neg_eq, neg_div_neg_eq] at order
    have ordered : q.unsignedZero.toRat < p.unsignedZero.toRat := by
      rwa [Binary64.toRat_eq below.2, Binary64.toRat_eq above.2]
    rw [(sortAscending_pair above.1 below.1 ordered).2] at roots
    rw [min_eq_right less.le, max_eq_left less.le]
    exact ⟨_, _, roots, (Binary64.lt_iff above.2 below.2).mpr order, above, below⟩
  · have leading : (0 : ℚ) < a := by exact_mod_cast positive
    have less : gridValue (-b - w) / (2 * a) < gridValue (-b + w) / (2 * a) :=
      div_lt_div_of_pos_right (by linarith) (by linarith)
    have order := gridValue_div_lt (t := 2 * a) (by linarith) (by linarith) apart firstSize secondSize
    have ordered : p.unsignedZero.toRat < q.unsignedZero.toRat := by
      rwa [Binary64.toRat_eq below.2, Binary64.toRat_eq above.2]
    rw [(sortAscending_pair below.1 above.1 ordered).1] at roots
    rw [min_eq_left less.le, max_eq_right less.le]
    exact ⟨_, _, roots, (Binary64.lt_iff below.2 above.2).mpr order, below, above⟩

end Roots

section Polynomials

variable {settings : Settings} {a b c : ℤ} {l : Char} {text axis : String} {f : Equation} {height : Binary64}
  {claimed : Option Number}

/-- The quadratic with these coefficients. -/
noncomputable def quadraticOf (a b c : ℤ) : ℤ[X] := C a * X ^ 2 + C b * X + C c

theorem natDegree_quadraticOf (ha : a ≠ 0) : (quadraticOf a b c).natDegree = 2 :=
  Polynomial.natDegree_quadratic ha

@[simp] theorem coeff_quadraticOf_two (a b c : ℤ) : (quadraticOf a b c).coeff 2 = a := by
  rw [quadraticOf, coeff_add, coeff_add, coeff_C_mul_X_pow, coeff_C_mul_X, coeff_C]
  norm_num

@[simp] theorem coeff_quadraticOf_one (a b c : ℤ) : (quadraticOf a b c).coeff 1 = b := by
  rw [quadraticOf, coeff_add, coeff_add, coeff_C_mul_X_pow, coeff_C_mul_X, coeff_C]
  norm_num

@[simp] theorem coeff_quadraticOf_zero (a b c : ℤ) : (quadraticOf a b c).coeff 0 = c := by
  simp [quadraticOf]

theorem coeff_quadraticOf_of_lt {k : ℕ} (hk : 2 < k) : (quadraticOf a b c).coeff k = 0 :=
  coeff_eq_zero_of_natDegree_lt (natDegree_quadratic_le.trans_lt hk)

theorem abs_coeff_quadraticOf_le {M : ℤ} (ha : |a| ≤ M) (hb : |b| ≤ M) (hc : |c| ≤ M) (k : ℕ) :
    |(quadraticOf a b c).coeff k| ≤ M := by
  match k with
  | 0 => rwa [coeff_quadraticOf_zero]
  | 1 => rwa [coeff_quadraticOf_one]
  | 2 => rwa [coeff_quadraticOf_two]
  | k + 3 =>
    rw [coeff_quadraticOf_of_lt (by omega), abs_zero]
    exact (abs_nonneg a).trans ha

end Polynomials

section Texts

variable {s : SideSpelling} {a b c : ℤ} {l : Char} {k : ℕ} {limit : ℤ} {text : String}

theorem readCoefficient_intCast (small : |a| ≤ 2 ^ 53) : readCoefficient a = ofInt a :=
  Binary64.unsignedZero_eq (toRat?_ofInt small)

theorem SideSpelling.exactAt_of_mem (once : (s.terms.map TermSpelling.exactExponent).Nodup) {t : TermSpelling}
    (ht : t ∈ s.terms) : s.exactAt t.exactExponent = t.exactCoefficient := by
  have alone : ∀ {ts : List TermSpelling}, (ts.map TermSpelling.exactExponent).Nodup → t ∈ ts →
      ts.filter (fun u => u.exactExponent = t.exactExponent) = [t] := by
    intro ts once ht
    induction ts with
    | nil => cases ht
    | cons u rest ih =>
      rw [List.map_cons, List.nodup_cons, List.mem_map] at once
      rcases List.mem_cons.mp ht with rfl | later
      · have others : rest.filter (fun u => u.exactExponent = t.exactExponent) = [] :=
          List.filter_eq_nil_iff.mpr fun u hu same => once.1 ⟨u, hu, of_decide_eq_true same⟩
        rw [List.filter_cons, if_pos (decide_eq_true rfl), others]
      · have other : u.exactExponent ≠ t.exactExponent := fun same => once.1 ⟨t, later, same.symm⟩
        rw [List.filter_cons_of_neg (by simpa using other), ih once.2 later]
  rw [exactAt, alone once ht, List.map_singleton, List.sum_singleton]

theorem SideSpelling.IsQuadraticIn.exactAt_eq (h : s.IsQuadraticIn l) (two : s.exactAt 2 = a)
    (one : s.exactAt 1 = b) (zero : s.exactAt 0 = c) (k : ℕ) :
    s.exactAt k = ((quadraticOf a b c).coeff k : ℤ) := by
  match k with
  | 0 => rw [Nat.cast_zero, zero, coeff_quadraticOf_zero]
  | 1 => rw [Nat.cast_one, one, coeff_quadraticOf_one]
  | 2 => rw [Nat.cast_two, two, coeff_quadraticOf_two]
  | k + 3 =>
    have absent : s.terms.filter (fun t => t.exactExponent = ((k + 3 : ℕ) : ℚ)) = [] := by
      refine List.filter_eq_nil_iff.mpr fun t ht same => ?_
      obtain ⟨j, small, exponent⟩ := h.exponent t ht
      have equal : j = k + 3 := by exact_mod_cast exponent.symm.trans (of_decide_eq_true same)
      omega
    rw [coeff_quadraticOf_of_lt (by omega), exactAt, absent]
    rfl

theorem abs_sum_le_length_mul {zs : List ℤ} {M : ℤ} (h : ∀ z ∈ zs, |z| ≤ M) : |zs.sum| ≤ zs.length * M := by
  induction zs with
  | nil => simp
  | cons z zs ih =>
    rw [List.sum_cons, List.length_cons]
    have first := h z List.mem_cons_self
    have rest := ih fun y hy => h y (List.mem_cons_of_mem z hy)
    have total := abs_add_le z zs.sum
    push_cast
    linarith

section Coefficients

variable (h : s.IsQuadraticIn l) {P : ℤ[X]} (exact : ∀ k : ℕ, s.exactAt k = (P.coeff k : ℤ))
  (small : ∀ k, |P.coeff k| ≤ 2 ^ 25)
include h exact small

theorem SideSpelling.IsQuadraticIn.toRat?_coefficient {t : TermSpelling} (ht : t ∈ s.terms) :
    t.term.coefficient.toRat? = some ((P.coeff t.term.natExponent : ℤ) : ℚ) := by
  obtain ⟨-, -, exponents⟩ := h.isIn
  have value := t.unsignedZero_coefficient
  rw [← SideSpelling.exactAt_of_mem h.once ht, ← exponents t ht, exact, ← Binary64.ofInt] at value
  rw [← Binary64.toRat?_unsignedZero_eq, value, Binary64.toRat?_unsignedZero_eq,
    toRat?_ofInt ((small _).trans (by norm_num))]

/-- Both sides together are an integer member: an exponent has one term, or two with the zero on the right. -/
theorem SideSpelling.IsQuadraticIn.isIntegerIn_append :
    Member.IsIntegerIn l ⟨s.member.terms ++ [.constant .negZero]⟩ := by
  have terms : ∀ t ∈ s.member.terms ++ [.constant .negZero], ∃ z : ℤ,
      t.coefficient.toRat? = some (z : ℚ) ∧ |z| ≤ 2 ^ 25 := by
    intro t ht
    rcases List.mem_append.mp ht with ht | ht
    · obtain ⟨u, hu, rfl⟩ := List.mem_map.mp ht
      exact ⟨_, h.toRat?_coefficient exact small hu, small _⟩
    · rw [List.mem_singleton.mp ht]
      exact ⟨0, rfl, by norm_num⟩
  refine ⟨fun t ht => ⟨?_, h.isIn.1.append_negZero.1 t ht⟩, fun k zs hzs => ?_⟩
  · obtain ⟨z, value, -⟩ := terms t ht
    exact ⟨z, value⟩
  · have few : (Member.likeCoefficients ⟨s.member.terms ++ [.constant .negZero]⟩ k).length ≤ 2 := by
      obtain ⟨same, single⟩ := h.filter_terms k
      rw [Member.likeCoefficients, List.length_map, List.filter_append, List.length_append, same,
        List.length_map]
      have last := List.length_filter_le (fun t : Term => decide (t.natExponent = k)) [.constant .negZero]
      rw [List.length_singleton] at last
      omega
    have bounded : ∀ z ∈ zs, |z| ≤ 2 ^ 25 := by
      intro z hz
      obtain ⟨t, ht, rfl⟩ := List.mem_map.mp (hzs.subset hz)
      obtain ⟨z, value, size⟩ := terms t (List.mem_of_mem_filter ht)
      rwa [Term.intCoefficient, Binary64.toRat_eq value, Rat.num_intCast]
    have total := abs_sum_le_length_mul bounded
    have short := hzs.length_le.trans few
    omega

theorem SideSpelling.IsQuadraticIn.toPolynomial_append :
    Member.toPolynomial ⟨s.member.terms ++ [.constant .negZero]⟩ = P := by
  have integer := h.isIntegerIn_append exact small
  have double : ∀ k, |P.coeff k| ≤ 2 ^ 53 := fun k => (small k).trans (by norm_num)
  ext k
  have sum := integer.sum_like k
  rw [← Member.likeSum, h.isIn.1.append_negZero.2 k, h.likeSum_member, exact, ← readCoefficient,
    readCoefficient_intCast (double k)] at sum
  have value := congrArg Binary64.toRat? sum
  rw [toRat?_ofInt (integer.hasSmallCoefficients k), toRat?_ofInt (double k), Option.some.injEq] at value
  exact_mod_cast value.symm

end Coefficients

theorem WritesQuadratic.exists_isFunctionOf (written : WritesQuadratic text a b c) (ha : |a| ≤ 2 ^ 25)
    (hb : |b| ≤ 2 ^ 25) (hc : |c| ≤ 2 ^ 25) (within : 2 ≤ limit) :
    ∃ l f, Equation.ofText text = .ok f ∧ f.IsFunctionOf (quadraticOf a b c) l limit := by
  obtain ⟨l, s, hl, quadratic, chars, two, one, zero⟩ := written
  have exact := quadratic.exactAt_eq two one zero
  have small := abs_coeff_quadraticOf_le ha hb hc
  have integer := quadratic.isIntegerIn_append exact small
  have polynomial := quadratic.toPolynomial_append exact small
  have reduced := Equation.polynomial_eqZero_of_isIn hl quadratic.isIn.1
  rw [Member.simplify_normalize integer, polynomial] at reduced
  refine ⟨l, _, Equation.ofText_eqZero chars, isFunctionOf_canonicalOf ?_ ?_ reduced⟩
  · exact polynomial ▸ integer.isRepresentable
  · exact le_trans (by exact_mod_cast natDegree_quadratic_le) within

end Texts

section Answers

variable {settings : Settings} {a b c : ℤ} {m : ℕ} {l : Char} {axis : String} {height delta : Binary64}
  {f : Equation} {claimed : Option Number} {results : List Binary64}

/-- As many roots as the discriminant has, each nearest to a root of the quadratic if those are rational. -/
structure PlacesRoots (a b c : ℤ) (results : List Binary64) : Prop where
  none : results = [] ↔ b * b - 4 * a * c < 0
  single : (∃ x, results = [x]) ↔ b * b - 4 * a * c = 0
  pair : (∃ x y, results = [x, y] ∧ x.lt y = true) ↔ 0 < b * b - 4 * a * c
  /-- No root is infinite, or a zero with a sign. -/
  unsigned : ∀ x ∈ results, x.IsUnsigned
  rational : IsSquare (b * b - 4 * a * c) → ∃ roots : List ℚ, roots.Pairwise (· < ·) ∧
    (∀ u, u ∈ roots ↔ a * (u * u) + b * u + c = 0) ∧ List.Forall₂ Binary64.IsNearest results roots

theorem placesRoots_nil (negative : b * b - 4 * a * c < 0) : PlacesRoots a b c [] where
  none := by simpa using negative
  single := by simpa using negative.ne
  pair := by simpa using negative.le
  unsigned := by simp
  rational square := absurd square.nonneg negative.not_ge

theorem placesRoots_singleton (ha : a ≠ 0) (zero : b * b - 4 * a * c = 0) {x : Binary64}
    (hx : IsRounded x (-b / (2 * a))) : PlacesRoots a b c [x] where
  none := by simp [zero]
  single := by simp [zero]
  pair := by simp [zero]
  unsigned y hy := List.mem_singleton.mp hy ▸ hx.1
  rational _ := by
    have leading : (a : ℚ) ≠ 0 := Int.cast_ne_zero.mpr ha
    have discriminant : discrim (a : ℚ) b c = 0 := by
      rw [discrim, sq]
      exact_mod_cast zero
    refine ⟨[-b / (2 * a)], List.pairwise_singleton _ _, fun u => ?_, ?_⟩
    · rw [List.mem_singleton, quadratic_eq_zero_iff_of_discrim_eq_zero leading discriminant]
    · exact .cons (Binary64.isNearest_of_toRat? hx.2) .nil

theorem exists_rational_roots (ha : a ≠ 0) (positive : 0 < m) (square : b * b - 4 * a * c = m * m) {p q : ℚ}
    (hp : p = (-b - m) / (2 * a)) (hq : q = (-b + m) / (2 * a)) :
    [min p q, max p q].Pairwise (· < ·) ∧ ∀ u, u ∈ [min p q, max p q] ↔ a * (u * u) + b * u + c = 0 := by
  have leading : (a : ℚ) ≠ 0 := Int.cast_ne_zero.mpr ha
  have discriminant : discrim (a : ℚ) b c = m * m := by
    rw [discrim, sq]
    exact_mod_cast square
  have different : p ≠ q := by
    have sides : (0 : ℚ) < m := by exact_mod_cast positive
    rw [hp, hq, Ne, div_left_inj' (mul_ne_zero two_ne_zero leading)]
    intro same
    linarith
  refine ⟨List.pairwise_pair.mpr (min_lt_max.mpr different), fun u => ?_⟩
  rw [quadratic_eq_zero_iff leading discriminant, ← hp, ← hq, List.mem_pair]
  rcases le_total p q with le | le
  · rw [min_eq_left le, max_eq_right le, or_comm]
  · rw [min_eq_right le, max_eq_left le]

theorem placesRoots_pair (positive : 0 < b * b - 4 * a * c) {x y : Binary64} (ascending : x.lt y = true)
    (hx : x.IsUnsigned) (hy : y.IsUnsigned)
    (rational : IsSquare (b * b - 4 * a * c) → ∃ roots : List ℚ, roots.Pairwise (· < ·) ∧
      (∀ u, u ∈ roots ↔ a * (u * u) + b * u + c = 0) ∧ List.Forall₂ Binary64.IsNearest [x, y] roots) :
    PlacesRoots a b c [x, y] where
  none := by simpa using positive.le
  single := by simpa using positive.ne'
  pair := iff_of_true ⟨x, y, rfl, ascending⟩ positive
  unsigned := by simp [hx, hy]
  rational := rational

theorem discriminant_le (ha : |a| ≤ 2 ^ 25) (hb : |b| ≤ 2 ^ 25) (hc : |c| ≤ 2 ^ 25) :
    b * b - 4 * a * c ≤ (2 ^ 27) ^ 2 := by
  have square := abs_mul_le hb hb
  have product := abs_mul_le (abs_mul_le (by norm_num : |(4 : ℤ)| ≤ 4) ha) hc
  have difference := abs_le.mp (abs_sub (b * b) (4 * a * c))
  have size := le_abs_self (b * b - 4 * a * c)
  have total := abs_sub (b * b) (4 * a * c)
  omega

theorem exists_toRat?_sqrt (value : delta.toRat? = some ((b * b - 4 * a * c : ℤ) : ℚ))
    (positive : 0 < b * b - 4 * a * c) (square : IsSquare (b * b - 4 * a * c))
    (small : b * b - 4 * a * c ≤ (2 ^ 27) ^ 2) :
    ∃ m : ℕ, 0 < m ∧ m ≤ 2 ^ 27 ∧ b * b - 4 * a * c = m * m ∧ delta.sqrt.toRat? = some (m : ℚ) := by
  obtain ⟨r, hr⟩ := square
  have size : b * b - 4 * a * c = (r.natAbs : ℤ) * r.natAbs := by rw [hr, Int.natAbs_mul_self']
  have nonzero : 0 < r.natAbs := by
    refine Int.natAbs_pos.mpr ?_
    rintro rfl
    omega
  have bound : r.natAbs ≤ 2 ^ 27 := by
    rw [size, ← sq] at small
    exact_mod_cast (sq_le_sq₀ (Int.natCast_nonneg _) (by norm_num)).mp small
  rw [size, Int.cast_mul, Int.cast_natCast, ← sq] at value
  have limit : |(r.natAbs : ℤ)| ≤ 2 ^ 53 := by
    rw [Nat.abs_cast]
    omega
  refine ⟨_, nonzero, bound, size, ?_⟩
  rw [Binary64.sqrt_square value nonzero, toRat?_ofInt limit, Int.cast_natCast]

theorem exists_nearest_roots (ha : a ≠ 0) (smallB : |b| ≤ 2 ^ 25) (positive : 0 < m) (limit : m ≤ 2 ^ 27)
    (square : b * b - 4 * a * c = m * m) {x y : Binary64}
    (hx : IsRounded x (min (gridValue (-b - m) / (2 * a)) (gridValue (-b + m) / (2 * a))))
    (hy : IsRounded y (max (gridValue (-b - m) / (2 * a)) (gridValue (-b + m) / (2 * a)))) :
    ∃ roots : List ℚ, roots.Pairwise (· < ·) ∧ (∀ u, u ∈ roots ↔ a * (u * u) + b * u + c = 0) ∧
      List.Forall₂ Binary64.IsNearest [x, y] roots := by
  have sides := abs_le.mp smallB
  have first : gridValue (-b - m) = -b - m := by
    have grid := onGrid_intCast (n := -b - m) (abs_le.mpr ⟨by omega, by omega⟩)
    exact_mod_cast Binary64.gridValue_of_onGrid grid
  have second : gridValue (-b + m) = -b + m := by
    have grid := onGrid_intCast (n := -b + m) (abs_le.mpr ⟨by omega, by omega⟩)
    exact_mod_cast Binary64.gridValue_of_onGrid grid
  obtain ⟨ordered, members⟩ := exists_rational_roots ha positive square (congrArg (· / (2 * (a : ℚ))) first)
    (congrArg (· / (2 * (a : ℚ))) second)
  exact ⟨_, ordered, members, .cons (Binary64.isNearest_of_toRat? hx.2)
    (.cons (Binary64.isNearest_of_toRat? hy.2) .nil)⟩

/-- The computed roots are placed, and there are some exactly where the discriminant is not negative. -/
theorem exists_quadraticRoots_placed (tells : settings.TellsIntegers) (ha : a ≠ 0) (smallA : |a| ≤ 2 ^ 25)
    (smallB : |b| ≤ 2 ^ 25) (smallC : |c| ≤ 2 ^ 25) :
    ∃ roots, quadraticRoots settings (ofInt a) (ofInt b) (discriminant (ofInt a) (ofInt b) (ofInt c)) =
        .ok roots ∧ PlacesRoots a b c (roots.getD []) ∧ (roots.isSome ↔ 0 ≤ b * b - 4 * a * c) := by
  have value := toRat?_discriminant smallA smallB smallC
  rcases lt_trichotomy (b * b - 4 * a * c) 0 with negative | zero | positive
  · exact ⟨none, quadraticRoots_of_neg tells value negative _ _, placesRoots_nil negative, by simpa using negative⟩
  · obtain ⟨x, roots, rounded⟩ := exists_single_root tells ha smallA smallB (zero ▸ value)
    exact ⟨_, roots, placesRoots_singleton ha zero rounded, by simp [zero]⟩
  · have above : (0 : ℚ) < ((b * b - 4 * a * c : ℤ) : ℚ) := by exact_mod_cast positive
    have bound : ((b * b - 4 * a * c : ℤ) : ℚ) ≤ ((2 ^ 27 : ℕ) : ℚ) ^ 2 := by
      exact_mod_cast discriminant_le smallA smallB smallC
    obtain ⟨w, root, size⟩ := Binary64.exists_sqrt_le value above bound
      (le_trans (by norm_num) (pow_le_pow_right₀ one_le_two (by decide : 28 ≤ 1000)))
    have one : ((1 : ℕ) : ℚ) ^ 2 ≤ ((b * b - 4 * a * c : ℤ) : ℚ) := by
      rw [Nat.cast_one, one_pow]
      exact_mod_cast positive
    have low := Binary64.le_toRat_sqrt value above one (mod_cast onGrid_intCast (n := 1) (by norm_num)) root
    push_cast at low size
    obtain ⟨x, y, roots, ascending, hx, hy⟩ := exists_two_roots tells ha smallA smallB value positive root low
      ((le_abs_self w).trans (size.trans (by norm_num)))
    refine ⟨_, roots, placesRoots_pair positive ascending hx.1 hy.1 fun square => ?_, by simpa using positive.le⟩
    obtain ⟨m, nonzero, limit, square, exact⟩ := exists_toRat?_sqrt value positive square
      (discriminant_le smallA smallB smallC)
    obtain rfl : w = m := Option.some.inj (root.symm.trans exact)
    exact exists_nearest_roots ha smallB nonzero limit square hx hy

theorem solve_quadratic_returns (tells : settings.TellsIntegers) (within : 2 ≤ settings.maxDegree) (ha : a ≠ 0)
    (smallA : |a| ≤ 2 ^ 25) (smallB : |b| ≤ 2 ^ 25) (smallC : |c| ≤ 2 ^ 25)
    (hf : f.IsFunctionOf (quadraticOf a b c) l settings.maxDegree) (hh : axisHeight axis = .ok height)
    (two : claimed = none ∨ claimed = some (.exact 2)) (depth : ℤ) :
    (solve settings axis depth f claimed).Returns fun s =>
      (∃ d, s.delta = some d ∧ d.toRat? = some ((b * b - 4 * a * c : ℤ) : ℚ)) ∧
        s.status = (if b * b - 4 * a * c < 0 then .impossible else .solved) ∧ PlacesRoots a b c s.results := by
  have degree := natDegree_quadraticOf (b := b) (c := c) ha
  have leading : settings.isZero (ofInt a) = false := by
    rw [tells.isZero_eq (toRat?_ofInt (n := a) (by omega)), decide_eq_false ha]
  have atTwo : solvingDegree settings (Member.canonicalOf (quadraticOf a b c) l) claimed =
      .ok (quadraticOf a b c).natDegree := by
    rcases two with rfl | rfl
    · obtain ⟨p, -, integer, same, -⟩ := hf
      exact solvingDegree_none (same ▸ integer.isRepresentable) (by rwa [degree])
    · rw [degree]
      exact solvingDegree_two within _
  obtain ⟨roots, computed, placed, real⟩ := exists_quadraticRoots_placed tells ha smallA smallB smallC
  refine solveWith_returns hf atTwo hh (fun three => ?_) (fun _ one => ?_) (fun equation _ => ?_) ?_
  · omega
  · omega
  · rw [coeff_quadraticOf_two, coeff_quadraticOf_one, coeff_quadraticOf_zero]
    refine (solveQuadratic_answers leading computed).imp fun s answer => ?_
    obtain ⟨results, -, delta, status⟩ := answer
    refine ⟨⟨_, delta, toRat?_discriminant smallA smallB smallC⟩, ?_, results ▸ placed⟩
    rw [status]
    split_ifs with found negative negative
    · exact absurd (real.mp found) negative.not_ge
    · rfl
    · rfl
    · exact absurd (real.mpr (not_lt.mp negative)) found
  · omega

/-- A quadratic equation with integer coefficients up to `2^25` is read from any text that writes it, and is
solved under every tolerance below 1: the discriminant is exact, its sign decides between no root, one root
and two roots in strictly ascending order, and rational roots come out as the doubles nearest to them. -/
theorem quadratic_roots_placed (tells : settings.TellsIntegers) (within : 2 ≤ settings.maxDegree) (ha : a ≠ 0)
    (smallA : |a| ≤ 2 ^ 25) (smallB : |b| ≤ 2 ^ 25) (smallC : |c| ≤ 2 ^ 25)
    (hh : axisHeight axis = .ok height) (two : claimed = none ∨ claimed = some (.exact 2)) (depth : ℤ) :
    (∀ text, WritesQuadratic text a b c → ∃ l f, Equation.ofText text = .ok f ∧
        f.IsFunctionOf (quadraticOf a b c) l settings.maxDegree) ∧
      ∀ l f, f.IsFunctionOf (quadraticOf a b c) l settings.maxDegree →
        (solve settings axis depth f claimed).Returns fun s =>
          (∃ d, s.delta = some d ∧ d.toRat? = some ((b * b - 4 * a * c : ℤ) : ℚ)) ∧
            s.status = (if b * b - 4 * a * c < 0 then .impossible else .solved) ∧
            PlacesRoots a b c s.results :=
  ⟨fun _ written => written.exists_isFunctionOf smallA smallB smallC within, fun _ _ hf =>
    solve_quadratic_returns tells within ha smallA smallB smallC hf hh two depth⟩

/-- `x^2-1=0` has two roots. -/
theorem quadratic_roots_placed_square : ∃ f, Equation.ofText "x^2-1=0" = .ok f ∧
    (solve .defaults "y=0" 0 f none).Returns fun s =>
      s.status = .solved ∧ (∃ x y, s.results = [x, y] ∧ x.lt y = true) ∧ ∀ x ∈ s.results, x ≠ .negZero := by
  obtain ⟨read, solved⟩ := quadratic_roots_placed Settings.tellsIntegers_defaults (by decide)
    (a := 1) (b := 0) (c := -1) (by decide) (by norm_num) (by norm_num) (by norm_num) axisHeight_zero (.inl rfl) 0
  obtain ⟨l, f, text, function⟩ := read "x^2-1=0" (by exact_mod_cast writesQuadratic_square)
  refine ⟨f, text, (solved l f function).imp fun s answer => ?_⟩
  obtain ⟨-, status, placed⟩ := answer
  exact ⟨status, placed.pair.mpr (by decide), fun x hx => (placed.unsigned x hx).ne_negZero⟩

end Answers

end FunctionStudy
