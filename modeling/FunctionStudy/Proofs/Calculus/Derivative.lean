import Mathlib.Analysis.Calculus.Deriv.Add
import Mathlib.Analysis.Calculus.Deriv.Mul
import Mathlib.Analysis.SpecialFunctions.Pow.Deriv
import Mathlib.Topology.Algebra.Module.ModuleTopology
import FunctionStudy.Calculus
import FunctionStudy.Proofs.Binary64.RelativeError
import FunctionStudy.Proofs.Member.RealValue

/-! Derivatives of real functions. The power rule is followed on doubles as the program does, and on
rationals without rounding. An exponent below 1 leaves a constant behind instead of a power with a
negative exponent. -/

namespace FunctionStudy

section Rule

/-- What the power rule does with coefficients. -/
structure PowerRule (α : Type) where
  timesExponent : α → Binary64 → α
  isZero : α → Bool

namespace PowerRule

def double : PowerRule Binary64 := ⟨Binary64.mul, Binary64.isZero⟩

def rational : PowerRule ℚ := ⟨fun c n => c * n.toRat, fun c => c = 0⟩

theorem rational_timesExponent (c : ℚ) (n : Binary64) : rational.timesExponent c n = c * n.toRat := rfl

theorem rational_isZero (c : ℚ) : rational.isZero c = decide (c = 0) := rfl

end PowerRule

/-- The literal part that an exponent less by one leaves, if it is still above 0. -/
def Literal.lowered (l : Literal) : Option Literal :=
  if (l.exponent.sub (.ofInt 1)).isPositive then
    some { letter := l.letter, exponent := l.exponent.sub (.ofInt 1) }
  else none

namespace Summand

variable {α : Type} (R : PowerRule α)

def derivative? (t : Summand α) : Option (Summand α) :=
  t.literal.bind fun l =>
    let coefficient := R.timesExponent t.coefficient l.exponent
    if l.exponent.isZero || R.isZero coefficient then none else some ⟨coefficient, l.lowered⟩

def derivative (ts : List (Summand α)) : List (Summand α) := ts.filterMap (derivative? R)

theorem derivative?_some (c : α) (l : Literal) : derivative? R ⟨c, some l⟩ =
    if (l.exponent.isZero || R.isZero (R.timesExponent c l.exponent)) = true then none
    else some ⟨R.timesExponent c l.exponent, l.lowered⟩ := rfl

end Summand

theorem Term.summand_derivative? (t : Term) :
    t.derivative?.map Term.summand = t.summand.derivative? .double := by
  obtain ⟨c, literal⟩ := t
  cases literal with
  | none => rfl
  | some l =>
    rw [summand, Summand.derivative?_some]
    exact apply_ite (Option.map summand) _ _ _

/-- On doubles the rule is the program's. -/
theorem Member.summand_derivative (p : Member) :
    p.derivative.terms.map Term.summand = Summand.derivative .double (p.terms.map Term.summand) := by
  rw [Member.derivative, List.map_filterMap, Summand.derivative, List.filterMap_map]
  exact List.filterMap_congr fun t _ => t.summand_derivative?

end Rule

section Powers

theorem onGrid_of_den_eq_one {v : ℚ} (whole : v.den = 1) (size : |v.num| ≤ 2 ^ 53) : OnGrid v := by
  rw [← Rat.coe_int_num_of_den_eq_one whole]
  exact onGrid_intCast size

/-- One step down from a double is a double, as long as it can be told from the double itself. -/
theorem OnGrid.sub_one {n : ℚ} (h : OnGrid n) (low : 1 ≤ n) (high : n ≤ 2 ^ 53) : OnGrid (n - 1) := by
  obtain ⟨m, k, size, value, -⟩ := h
  have range : (n - 1).abs < 2 ^ (1024 : ℕ) := by
    rw [ratAbs_eq_abs, abs_of_nonneg (by linarith)]
    calc n - 1 < n := by linarith
      _ ≤ 2 ^ 53 := high
      _ ≤ 2 ^ (1024 : ℕ) := pow_le_pow_right₀ one_le_two (by decide)
  -- Either the last place of the double is a whole number, or it is a part of 1.
  rcases le_total 1074 k with whole | fraction
  · obtain ⟨j, rfl⟩ := Nat.exists_eq_add_of_le whole
    have integer : n = ((m * 2 ^ j : ℤ) : ℚ) := by
      rw [value, pow_add]
      push_cast
      field_simp
    have same : n - 1 = ((m * 2 ^ j - 1 : ℤ) : ℚ) := by rw [integer, Int.cast_sub, Int.cast_one]
    rw [integer] at low high
    rw [same]
    refine onGrid_intCast ?_
    have low' : 1 ≤ m * 2 ^ j := by exact_mod_cast low
    have high' : m * 2 ^ j ≤ 2 ^ 53 := by exact_mod_cast high
    rw [abs_le]
    omega
  · obtain ⟨j, places⟩ := Nat.exists_eq_add_of_le fraction
    have unit : (2 : ℚ) ^ (1074 : ℕ) = 2 ^ j * 2 ^ k := by rw [places, pow_add, mul_comm]
    have places : n = m / 2 ^ j := by rw [value, unit, mul_div_mul_right _ _ (by positivity)]
    rw [places, le_div_iff₀ (by positivity), one_mul] at low
    have above : 2 ^ j ≤ m := by exact_mod_cast low
    have pos : (0 : ℤ) < 2 ^ j := by positivity
    refine ⟨m - 2 ^ j, k, by omega, ?_, range⟩
    rw [places, unit, mul_div_mul_right _ _ (by positivity), Int.cast_sub, sub_div]
    push_cast
    rw [div_self (by positivity)]

namespace Binary64

variable {n : Binary64}

/-- The power that is left of an exponent when it is lowered: none of an exponent up to 1. -/
def leftPower (n : Binary64) : ℚ :=
  if (n.sub (.ofInt 1)).isPositive then (n.sub (.ofInt 1)).toRat else 0

theorem toRat?_one : (ofInt 1).toRat? = some 1 := toRat?_ofInt (n := 1) (by norm_num)

theorem leftPower_eq (finite : n.isFinite = true) (low : 1 ≤ n.toRat) (high : n.toRat ≤ 2 ^ 53) :
    n.leftPower = n.toRat - 1 := by
  have value := toRat?_of_finite finite
  have lowered := toRat?_sub value toRat?_one ((onGrid_of_toRat? value).sub_one low high)
  unfold leftPower
  split_ifs with positive
  · exact toRat_eq lowered
  · rw [isPositive_iff lowered] at positive
    linarith

theorem leftPower_eq_zero (finite : n.isFinite = true) (low : 0 ≤ n.toRat) (high : n.toRat ≤ 1) :
    n.leftPower = 0 := by
  have value := toRat?_of_finite finite
  have unit : |n.toRat - 1| ≤ 1 := by
    rw [abs_le]
    constructor <;> linarith
  have size : |n.toRat - 1| ≤ 2 ^ (1000 : ℕ) := unit.trans (one_le_pow₀ one_le_two)
  have lowered := toRat?_sub_eq_gridValue value toRat?_one size
  refine if_neg ?_
  rw [isPositive_iff lowered, not_lt]
  have below := gridValue_mono (show n.toRat - 1 ≤ 0 by linarith)
  rwa [gridValue_of_onGrid onGrid_zero] at below

end Binary64

end Powers

section Values

namespace Summand

variable {x : ℝ} {t : Summand ℚ} {ts : List (Summand ℚ)}

def power (t : Summand ℚ) : ℚ := t.exponent.toRat

/-- The derivative of a term as a real function. -/
noncomputable def slopeAt (x : ℝ) (t : Summand ℚ) : ℝ := t.coefficient * t.power * x ^ (t.power - 1 : ℝ)

noncomputable def slopeTotal (x : ℝ) (ts : List (Summand ℚ)) : ℝ := (ts.map (·.slopeAt x)).sum

noncomputable def leftValue (x : ℝ) (t : Summand ℚ) : ℝ :=
  t.coefficient * t.power * x ^ (t.exponent.leftPower : ℝ)

theorem hasDerivAt_realValue (positive : 0 < x) (t : Summand ℚ) :
    HasDerivAt (fun y => t.realValue y) (t.slopeAt x) x := by
  have power := (Real.hasDerivAt_rpow_const (p := (t.power : ℝ)) (.inl positive.ne')).const_mul (t.coefficient : ℝ)
  rwa [← mul_assoc] at power

theorem hasDerivAt_realTotal (positive : 0 < x) (ts : List (Summand ℚ)) :
    HasDerivAt (fun y => realTotal y ts) (slopeTotal x ts) x := by
  induction ts with
  | nil => exact hasDerivAt_const x 0
  | cons t rest ih =>
    have sum := (t.hasDerivAt_realValue positive).fun_add ih
    simpa only [realTotal_cons, slopeTotal, List.map_cons, List.sum_cons] using sum

theorem toRat_exponent_lowered {c : ℚ} (l : Literal) :
    (Summand.mk c l.lowered).exponent.toRat = l.exponent.leftPower := by
  unfold Literal.lowered Binary64.leftPower
  split_ifs <;> rfl

theorem realTotal_derivative? (x : ℝ) (t : Summand ℚ) :
    realTotal x (t.derivative? .rational).toList = t.leftValue x := by
  obtain ⟨c, literal⟩ := t
  cases literal with
  | none => simp [derivative?, leftValue, power, exponent, Binary64.toRat]
  | some l =>
    have value : leftValue x ⟨c, some l⟩ = c * l.exponent.toRat * x ^ (l.exponent.leftPower : ℝ) := rfl
    rw [derivative?_some, PowerRule.rational_timesExponent, PowerRule.rational_isZero, value]
    split_ifs with vanishes
    · have none : c * l.exponent.toRat = 0 := by
        rcases Bool.or_eq_true_iff.mp vanishes with zero | zero
        · rw [Binary64.toRat_eq (of_decide_eq_true zero), mul_zero]
        · exact of_decide_eq_true zero
      rw [← Rat.cast_mul, none, Rat.cast_zero, zero_mul]
      rfl
    · rw [Option.toList_some, realTotal_cons, realTotal_nil, add_zero, realValue, toRat_exponent_lowered,
        Rat.cast_mul]

theorem realTotal_derivative (x : ℝ) (ts : List (Summand ℚ)) :
    realTotal x (derivative .rational ts) = (ts.map (·.leftValue x)).sum := by
  induction ts with
  | nil => rfl
  | cons t rest ih =>
    have split : derivative .rational (t :: rest) =
        (t.derivative? .rational).toList ++ derivative .rational rest := by
      rw [derivative, List.filterMap_cons]
      cases t.derivative? .rational <;> rfl
    rw [split, realTotal_append, realTotal_derivative?, ih, List.map_cons, List.sum_cons]

/-- The exponents that are lowered to no power at all instead of to a negative one. -/
def IsFraction (t : Summand ℚ) : Prop := 0 < t.power ∧ t.power < 1

/-- The exponents that doubles need not tell from the ones below. -/
def IsHuge (t : Summand ℚ) : Prop := 2 ^ 53 < t.power

instance (t : Summand ℚ) : Decidable t.IsFraction := inferInstanceAs (Decidable (_ ∧ _))

instance (t : Summand ℚ) : Decidable t.IsHuge := inferInstanceAs (Decidable (_ < _))

/-- What a term with a fraction for its exponent is wrong by. -/
noncomputable def fractionError (x : ℝ) (t : Summand ℚ) : ℝ :=
  t.coefficient * t.power * (x ^ (t.power - 1 : ℝ) - 1)

/-- What a term with a huge exponent is wrong by. -/
noncomputable def hugeError (x : ℝ) (t : Summand ℚ) : ℝ :=
  t.coefficient * t.power * (x ^ (t.power - 1 : ℝ) - x ^ (t.exponent.leftPower : ℝ))

theorem slopeAt_eq (finite : t.exponent.isFinite = true) (nonneg : 0 ≤ t.power) (x : ℝ) :
    t.slopeAt x = t.leftValue x + (if t.IsFraction then t.fractionError x else 0) +
      if t.IsHuge then t.hugeError x else 0 := by
  unfold slopeAt leftValue fractionError hugeError
  by_cases huge : t.IsHuge
  · have whole : ¬ t.IsFraction := fun fraction => by
      unfold IsHuge at huge
      linarith [fraction.2]
    rw [if_pos huge, if_neg whole]
    ring
  by_cases fraction : t.IsFraction
  · have none := Binary64.leftPower_eq_zero finite nonneg fraction.2.le
    rw [if_neg huge, if_pos fraction, none, Rat.cast_zero, Real.rpow_zero]
    ring
  -- What is left is 0, where the coefficient vanishes, or can be lowered exactly.
  · rw [if_neg huge, if_neg fraction, add_zero, add_zero]
    rcases nonneg.eq_or_lt with zero | positive
    · rw [← zero, Rat.cast_zero, mul_zero, zero_mul, zero_mul]
    · have low : 1 ≤ t.power := not_lt.mp fun small => fraction ⟨positive, small⟩
      rw [Binary64.leftPower_eq finite low (not_lt.mp huge), Rat.cast_sub, Rat.cast_one]
      rfl

theorem sum_filter_cons (P : Summand ℚ → Prop) [DecidablePred P] (g : Summand ℚ → ℝ) :
    (((t :: ts).filter (P ·)).map g).sum = (if P t then g t else 0) + ((ts.filter (P ·)).map g).sum := by
  by_cases h : P t <;> simp [h]

/-- The slope is the value that the rule gives, but for fractions and huge exponents. -/
theorem slopeTotal_eq (finite : ∀ t ∈ ts, t.exponent.isFinite = true) (nonneg : ∀ t ∈ ts, 0 ≤ t.power) (x : ℝ) :
    slopeTotal x ts = realTotal x (derivative .rational ts) +
      ((ts.filter (·.IsFraction)).map (·.fractionError x)).sum +
      ((ts.filter (·.IsHuge)).map (·.hugeError x)).sum := by
  rw [realTotal_derivative]
  induction ts with
  | nil => simp [slopeTotal]
  | cons t rest ih =>
    obtain ⟨own, finite⟩ := List.forall_mem_cons.mp finite
    obtain ⟨low, nonneg⟩ := List.forall_mem_cons.mp nonneg
    have first := slopeAt_eq own low x
    have others := ih finite nonneg
    unfold slopeTotal at others ⊢
    rw [List.map_cons, List.sum_cons, first, others, List.map_cons, List.sum_cons, sum_filter_cons, sum_filter_cons]
    ring

end Summand

theorem Member.exact_derivative {p : Member}
    (coefficients : ∀ t ∈ p.terms, t.coefficient.isFinite = true)
    (exponents : ∀ t ∈ p.terms, t.exponent.isFinite = true)
    (products : ∀ t ∈ p.terms, OnGrid (t.coefficient.toRat * t.exponent.toRat)) :
    p.derivative.exact = Summand.derivative .rational p.exact := by
  have steps : p.derivative.exact = (p.derivative.terms.map Term.summand).map (·.map Binary64.toRat) := by
    rw [List.map_map]
    rfl
  rw [steps, Member.summand_derivative, Member.exact, Summand.derivative, Summand.derivative, List.map_filterMap,
    List.filterMap_map, List.filterMap_map]
  refine List.filterMap_congr fun t ht => ?_
  have coefficient := Binary64.toRat?_of_finite (coefficients t ht)
  have exponent := Binary64.toRat?_of_finite (exponents t ht)
  have product := Binary64.toRat?_mul coefficient exponent (products t ht)
  obtain ⟨c, literal⟩ := t
  cases literal with
  | none => rfl
  | some l =>
    have zero : (c.mul l.exponent).isZero = decide (c.toRat * l.exponent.toRat = 0) :=
      Bool.eq_iff_iff.mpr ((Binary64.isZero_iff product).trans decide_eq_true_iff.symm)
    have value : (c.mul l.exponent).toRat = c.toRat * l.exponent.toRat := Binary64.toRat_eq product
    have double : Summand.derivative? .double (Term.summand ⟨c, some l⟩) =
        if (l.exponent.isZero || (c.mul l.exponent).isZero) = true then none
        else some ⟨c.mul l.exponent, l.lowered⟩ := rfl
    have rational : (Term.summand ⟨c, some l⟩).map Binary64.toRat = ⟨c.toRat, some l⟩ := rfl
    rw [Function.comp_apply, Function.comp_apply, double, rational, Summand.derivative?_some,
      PowerRule.rational_timesExponent, PowerRule.rational_isZero, zero, ← value]
    split_ifs <;> rfl

end Values

section Derivatives

namespace Equation

open Summand

variable {f : Equation}

theorem derive_explicit (explicit : f.isExplicit = true) :
    f.derive 1 = .ok (Equation.explicit (f.label ++ "'") f.right.derivative) := by
  rw [derive, polynomial, if_pos explicit]
  rfl

/-- An explicit function always has a derivative, by the power rule on doubles; where no product of a
coefficient and its exponent is rounded, the coefficients are those of the exact rule. At a positive number
the exact rule gives the derivative of the function, less what is missing for each exponent between 0 and 1,
whose power is dropped, and for each exponent above `2^53`. So it is the derivative where there is no such
exponent. -/
theorem derive_slope (explicit : f.isExplicit = true)
    (coefficients : ∀ t ∈ f.right.terms, t.coefficient.isFinite = true)
    (exponents : ∀ t ∈ f.right.terms, t.exponent.isFinite = true ∧ 0 ≤ t.exponent.toRat) :
    ∃ g, f.derive 1 = .ok g ∧
      g.right.terms.map Term.summand = derivative .double (f.right.terms.map Term.summand) ∧
      ((∀ t ∈ f.right.terms, OnGrid (t.coefficient.toRat * t.exponent.toRat)) →
        g.right.exact = derivative .rational f.right.exact) ∧
      ∀ x : ℝ, 0 < x →
        HasDerivAt (fun y => f.right.realValue y) (slopeTotal x f.right.exact) x ∧
        slopeTotal x f.right.exact = realTotal x (derivative .rational f.right.exact) +
          ((f.right.exact.filter (·.IsFraction)).map (·.fractionError x)).sum +
          ((f.right.exact.filter (·.IsHuge)).map (·.hugeError x)).sum ∧
        ((∀ t ∈ f.right.exact, ¬ t.IsFraction ∧ ¬ t.IsHuge) →
          realTotal x (derivative .rational f.right.exact) = slopeTotal x f.right.exact) := by
  refine ⟨_, derive_explicit explicit, f.right.summand_derivative,
    Member.exact_derivative coefficients fun t ht => (exponents t ht).1, fun x positive => ?_⟩
  have known : ∀ t ∈ f.right.exact, t.exponent.isFinite = true ∧ 0 ≤ t.power := by
    intro t ht
    obtain ⟨u, hu, rfl⟩ := List.mem_map.mp ht
    exact exponents u hu
  have slope := slopeTotal_eq (fun t ht => (known t ht).1) (fun t ht => (known t ht).2) x
  refine ⟨hasDerivAt_realTotal positive _, slope, fun kept => ?_⟩
  have fractions : f.right.exact.filter (·.IsFraction) = [] :=
    List.filter_eq_nil_iff.mpr fun t ht => by simpa using (kept t ht).1
  have huge : f.right.exact.filter (·.IsHuge) = [] :=
    List.filter_eq_nil_iff.mpr fun t ht => by simpa using (kept t ht).2
  rw [slope, fractions, huge]
  simp

/-- An exponent that is no integer, an exponent 1 and a constant. -/
theorem derive_slope_power : ∃ f g, parse "y=2x^2.5-x+4" = .ok f ∧ f.derive 1 = .ok g ∧
    g.text = "y'=5x^1.5-1" ∧
    ∀ x : ℝ, 0 < x → HasDerivAt (fun y => f.right.realValue y) (g.right.realValue x) x := by
  let f : Equation := ⟨⟨[⟨.ofInt 1, some (.ofLetter "y")⟩]⟩,
    ⟨[⟨.ofInt 2, some { letter := "x", exponent := .round (5 / 2) }⟩, ⟨.ofInt (-1), some (.ofLetter "x")⟩,
      .constant (.ofInt 4)]⟩⟩
  have read : parse "y=2x^2.5-x+4" = .ok f := by decide +kernel
  obtain ⟨g, derived, -, exactly, slopes⟩ :=
    derive_slope (f := f) (by decide +kernel) (by decide +kernel) (by decide +kernel)
  have text : (f.derive 1).map Equation.text = .ok "y'=5x^1.5-1" := by decide +kernel
  rw [derived] at text
  have whole : ∀ t ∈ f.right.terms, (t.coefficient.toRat * t.exponent.toRat).den = 1 ∧
      |(t.coefficient.toRat * t.exponent.toRat).num| ≤ 2 ^ 53 := by decide +kernel
  have kept : ∀ t ∈ f.right.exact, ¬ t.IsFraction ∧ ¬ t.IsHuge := by decide +kernel
  refine ⟨f, g, read, derived, Except.ok.inj text, fun x positive => ?_⟩
  obtain ⟨slope, -, same⟩ := slopes x positive
  rw [Member.realValue, exactly fun t ht => onGrid_of_den_eq_one (whole t ht).1 (whole t ht).2, same kept]
  exact slope

/-- The derivative of `x^0.5` is given as 0.5, but at 4 it is 0.25. -/
theorem derive_root : ∃ f g, parse "y=x^0.5" = .ok f ∧ f.derive 1 = .ok g ∧
    g.right.realValue 4 = 1 / 2 ∧ slopeTotal 4 f.right.exact = 1 / 4 := by
  let root : Literal := { letter := "x", exponent := .round (1 / 2) }
  let f : Equation := ⟨⟨[⟨.ofInt 1, some (.ofLetter "y")⟩]⟩, ⟨[⟨.ofInt 1, some root⟩]⟩⟩
  have read : parse "y=x^0.5" = .ok f := by decide +kernel
  have exponent : root.exponent.toRat = 1 / 2 := by decide +kernel
  have terms : f.right.exact = [⟨1, some root⟩] := by decide +kernel
  have constant : f.right.derivative.exact = [⟨1 / 2, none⟩] := by decide +kernel
  have unit : Binary64.zero.toRat = 0 := rfl
  refine ⟨f, _, read, derive_explicit (by decide +kernel), ?_, ?_⟩
  · have right : (Equation.explicit (f.label ++ "'") f.right.derivative).right = f.right.derivative := rfl
    rw [right, Member.realValue, constant]
    simp [realValue, Summand.exponent, unit]
  · have sqrt : (4 : ℝ) ^ (1 / 2 - 1 : ℝ) = 1 / 2 := by
      have square : (4 : ℝ) = 2 ^ (2 : ℝ) := by norm_num
      rw [square, ← Real.rpow_mul zero_le_two]
      norm_num [Real.rpow_neg_one]
    have value : slopeAt 4 ⟨1, some root⟩ = 1 * (1 / 2) * 4 ^ (1 / 2 - 1 : ℝ) := by
      simp [slopeAt, power, Summand.exponent, exponent]
    rw [slopeTotal, terms, List.map_singleton, List.sum_singleton, value, sqrt]
    norm_num

end Equation

end Derivatives

end FunctionStudy
