import FunctionStudy.SignificantBits

/-! Exponential and logarithm by fixed-point series. The arguments are cut to a number of binary
places, and each series is summed until its terms vanish there. The last few places are not
reliable; callers ask for more than they use. -/

namespace FunctionStudy.Formula.FixedPoint

open SignificantBits (magnitude)

/-- `value * 2 ^ bits`, cut to an integer. -/
def ofRat (bits : Nat) (value : Rat) : Int := (value * 2 ^ bits).floor

def one (bits : Nat) : Int := (1 <<< bits : Nat)

def mul (bits : Nat) (x y : Int) : Int := (x * y) >>> bits

/-- The series of `artanh z` for `|z| ≤ 1/3`. -/
def artanh (bits : Nat) (z : Int) : Int :=
  let square := mul bits z z
  let step := fun (state : Int × Int) (k : Nat) =>
    let next := mul bits state.1 square
    (next, state.2 + next / (2 * (k : Int) + 3))
  ((List.range (bits / 3 + 2)).foldl step (z, z)).2

def logTwo (bits : Nat) : Int := 2 * artanh bits (one bits / 3)

def log (bits : Nat) (v : Rat) : Rat :=
  let e := magnitude v - 1
  let m := v / (2 : Rat) ^ e
  ((2 * artanh bits (ofRat bits ((m - 1) / (m + 1))) + e * logTwo bits : Int) : Rat) / 2 ^ bits

/-- The exponential series for an argument between 0 and 1. -/
def expSeries (bits : Nat) (y : Int) : Int :=
  let step := fun (state : Int × Int) (k : Nat) =>
    let next := mul bits state.1 y / ((k : Int) + 1)
    (next, state.2 + next)
  ((List.range (bits / 4 + 20)).foldl step (one bits, one bits)).2

/-- The exponential of a rational; whole multiples of `log 2` are split off. -/
def exp (bits : Nat) (v : Rat) : Rat :=
  let y := ofRat bits v
  let unit := logTwo bits
  let whole := y / unit
  (expSeries bits (y - whole * unit) : Rat) / 2 ^ bits * (2 : Rat) ^ whole

end FunctionStudy.Formula.FixedPoint
