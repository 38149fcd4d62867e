import FunctionStudy.Formula.Polynomial
import FunctionStudy.Formula.RealSum

/-! Exact values of collected formulas at a rational point. Equal irrational parts are added, so a
sum that is rational is recognised as such, and a sum that is not is not zero. -/

namespace FunctionStudy.Formula

/-- The part of a value that is not rational: `exp exponent * (-1) ^ phase * base ^ power` with
`phase` and `power` in `[0, 1)`. -/
structure Surd where
  exponent : Rat
  phase : Rat
  power : Rat
deriving DecidableEq

def Surd.one : Surd := ⟨0, 0, 0⟩

/-- A rational point, with its size as a power where fractional exponents need that. -/
structure Point where
  value : Rat
  base : Rat
  baseExponent : Nat

/-- The exact value at a point: a rational factor of a surd, or infinite. -/
inductive Factor where
  | finite (surd : Surd) (coefficient : Rat)
  | infinite

/-- Brings the phase of a factor into `[0, 1)`. -/
def Factor.ofPhase (exponent phase power coefficient : Rat) : Factor :=
  let turned := if phase.floor % 2 = 0 then coefficient else -coefficient
  .finite ⟨exponent, fractional phase, power⟩ turned

def Point.evaluateMonomial (p : Point) (m : Monomial) (c : Rat) : Factor :=
  let quarter := m.imaginaryUnit / 2
  if m.unknown.den = 1 then
    if p.value = 0 ∧ m.unknown < 0 then .infinite
    else .ofPhase m.euler quarter 0 (c * p.value ^ m.unknown.num)
  else if p.value = 0 then
    if m.unknown < 0 then .infinite else .finite .one 0
  else
    let phase := if p.value < 0 then quarter + m.unknown else quarter
    if p.value.abs = 1 then .ofPhase m.euler phase 0 c
    else
      let power := p.baseExponent * m.unknown
      .ofPhase m.euler phase (fractional power) (c * p.base ^ power.floor)

def addFactor (s : Surd) (c : Rat) : List (Surd × Rat) → List (Surd × Rat)
  | [] => if c = 0 then [] else [(s, c)]
  | (t, d) :: rest =>
    if s = t then (if c + d = 0 then rest else (t, c + d) :: rest)
    else (t, d) :: addFactor s c rest

/-- An exact value. `infinite` has no direction, and two of them have no sum. -/
inductive Value where
  | undefined
  | infinite
  | rational (value : Rat)
  | irrational (base : Rat) (terms : List RealTerm)
  | nonReal
deriving DecidableEq

def Value.ofSurds (base : Rat) : List (Surd × Rat) → Value
  | [] => .rational 0
  | [(s, c)] =>
    if s = .one then .rational c
    else if s.phase = 0 then .irrational base [⟨s.exponent, s.power, c⟩]
    else .nonReal
  | sums =>
    if sums.all fun (s, _) => s.phase = 0 then
      .irrational base (sums.map fun (s, c) => ⟨s.exponent, s.power, c⟩)
    else .nonReal

def Polynomial.needsBase (p : Polynomial) : Bool := p.any fun (m, _) => m.unknown.den ≠ 1

def Polynomial.valueAt (p : Polynomial) (x : Rat) : Value :=
  let (base, baseExponent) :=
    if p.needsBase && x ≠ 0 && x.abs ≠ 1 then asPower x.abs else (x.abs, 1)
  let point : Point := ⟨x, base, baseExponent⟩
  let step := fun (state : Nat × List (Surd × Rat)) (term : Monomial × Rat) =>
    match point.evaluateMonomial term.1 term.2 with
    | .infinite => (state.1 + 1, state.2)
    | .finite s c => (state.1, addFactor s c state.2)
  match p.foldl step (0, []) with
  | (0, sums) => .ofSurds base sums
  | (1, _) => .infinite
  | _ => .undefined

end FunctionStudy.Formula
