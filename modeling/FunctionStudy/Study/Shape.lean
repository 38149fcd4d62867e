import FunctionStudy.Calculus
import FunctionStudy.Positivity

/-! Monotonicity and concavity. Both are sign analyses of a derivative. Where the sign of the first
derivative changes the function has an extremum: a maximum where it stops growing, a minimum where
it starts. -/

namespace FunctionStudy

def Equation.evaluate (f : Equation) (x : Number) : Except Error Binary64 := do
  let p ← f.polynomial
  FunctionStudy.evaluate p.text x p.letter

structure MonotonicityResult where
  derivative : String
  increasing : List Interval
  decreasing : List Interval
  maxima : List Point
  minima : List Point
  status : Status
deriving DecidableEq

def MonotonicityResult.toData (r : MonotonicityResult) : Data :=
  .record [("derivative", .text r.derivative),
    ("increasing", .list (r.increasing.map Interval.toData)),
    ("decreasing", .list (r.decreasing.map Interval.toData)),
    ("maxima", .list (r.maxima.map Point.toData)), ("minima", .list (r.minima.map Point.toData)),
    ("status", .text r.status.name)]

structure ConcavityResult where
  secondDerivative : String
  upward : List Interval
  downward : List Interval
  status : Status
deriving DecidableEq

def ConcavityResult.toData (r : ConcavityResult) : Data :=
  .record [("second_derivative", .text r.secondDerivative),
    ("upward", .list (r.upward.map Interval.toData)),
    ("downward", .list (r.downward.map Interval.toData)), ("status", .text r.status.name)]

/-- The extremum at the end of an interval, and whether it is a maximum. -/
def extremum (f : Equation) (before : SignedInterval) : Work (Bool × Point) := do
  let x := before.interval.finish
  let y := (← Work.ofExcept (f.evaluate (.double x))).unsignedZero
  let p ← Work.point x y
  let isMaximum := 0 < before.sign
  Work.record (.extremum isMaximum x y)
  return (isMaximum, p)

/-- Where a function grows and falls, with its extrema. Runs alternate in sign, so each of them
but the last ends in an extremum. -/
def monotonicity (settings : Settings) (f : Equation) : Work MonotonicityResult := do
  let derivative ← Work.ofExcept (f.derive 1)
  Work.record (.derivative f.text derivative.text)
  let signs ← positivity settings derivative
  let extrema ← signs.ordered.dropLast.mapM (extremum f)
  return {
    derivative := derivative.text
    increasing := signs.positive
    decreasing := signs.negative
    maxima := (extrema.filter (·.1)).map (·.2)
    minima := (extrema.filter (!·.1)).map (·.2)
    status := signs.status }

def concavity (settings : Settings) (f : Equation) : Work ConcavityResult := do
  let second ← Work.ofExcept (f.derive 2)
  Work.record (.secondDerivative second.text)
  let signs ← positivity settings second
  return {
    secondDerivative := second.text
    upward := signs.positive
    downward := signs.negative
    status := signs.status }

end FunctionStudy
