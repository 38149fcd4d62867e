import FunctionStudy.Formula.FixedPoint
import FunctionStudy.Formula.Radical

/-! Irrational sums as doubles. They are computed to a few bits more than a double holds, so the
last bit may be off where the value is close to half-way. A sum whose terms cancel is computed again
with more bits. -/

namespace FunctionStudy.Formula

open SignificantBits (magnitude cut cutUp nearest)

/-- A rational multiple of `exp exponent * base ^ power` for the positive base of the sum. -/
structure RealTerm where
  exponent : Rat
  power : Rat
  coefficient : Rat
deriving DecidableEq

/-- The bits that the series are summed to beyond those that are used. -/
def seriesGuard : Nat := 128

def squareRoot (bits : Nat) (v : Rat) : Rat :=
  let step := (2 : Rat) ^ ((magnitude v + 1) / 2 - (bits : Int))
  (floorRoot 2 (v / (step * step)).floor.toNat : Rat) * step

def eulerNumber (bits : Nat) : Rat := cut bits (FixedPoint.exp (bits + seriesGuard) 1)

/-- A power of Euler's number, cut. Whole powers and the square root are taken of the cut
number. -/
def eulerPower (bits : Nat) (e : Rat) : Rat :=
  if e.den = 1 then
    let n := e.num.natAbs
    let power := eulerNumber (bits + n.log2 + 5) ^ n
    cut bits (if e < 0 then 1 / cutUp (bits + 5) power else power)
  else if e = 1 / 2 then squareRoot bits (eulerNumber (bits + 5))
  else
    let extra := if 5 < magnitude e then (magnitude e).toNat else 0
    cut bits (FixedPoint.exp (bits + seriesGuard) (cut (bits + 10 + extra) e))

def Radical.approximate (bits : Nat) (r : Radical) : Rat :=
  if r.power = 1 / 2 then squareRoot bits (cut (bits + 5) r.radicand)
  else
    let log := FixedPoint.log (bits + seriesGuard) (cut (bits + 15) r.radicand)
    cut bits (FixedPoint.exp (bits + seriesGuard) (cut (bits + 10) r.power * cut (bits + 10) log))

inductive RealFactor where
  | eulerPower (exponent : Rat)
  | radical (r : Radical)
deriving DecidableEq

def RealFactor.approximate (bits : Nat) : RealFactor → Rat
  | .eulerPower e => Formula.eulerPower bits e
  | .radical r => r.approximate bits

structure RealProduct where
  coefficient : Rat
  factors : List RealFactor
deriving DecidableEq

def RealTerm.toProduct (base : Rat) (t : RealTerm) : RealProduct :=
  let (rational, radicals) := Radical.ofRat base t.power
  let powers := if t.exponent = 0 then [] else [RealFactor.eulerPower t.exponent]
  ⟨t.coefficient * rational, powers ++ radicals.map .radical⟩

/-- A product: a lone number is cut, and otherwise the product of numbers cut to a few more bits
is rounded. -/
def RealProduct.approximate (bits : Nat) (p : RealProduct) : Rat :=
  match p.factors, decide (p.coefficient = 1) with
  | [], _ => cut bits p.coefficient
  | [factor], true => factor.approximate bits
  | factors, isOne =>
    let work := bits + factors.length + (if isOne then 0 else 1) + 5
    let product := factors.foldl (fun product f => product * f.approximate work) 1
    nearest bits (cut work p.coefficient * product)

/-- The bits that an irrational value is computed to: four more than a double has. -/
def targetBits : Nat := 57

/-- The bits that are added at most when the terms of a sum cancel. -/
def extraBits : Nat := 332

/-- A sum, and how many of its bits can be trusted. As long as they are fewer than `targetBits` the
terms are computed again, with growing steps in `bits`. -/
def sumFrom (products : List RealProduct) : Nat → Nat → Nat → Rat × Int
  | 0, _, _ => (0, 0)
  | fuel + 1, bits, round =>
    let parts := products.map (·.approximate (bits + 10))
    let sum := parts.foldl (· + ·) 0
    let top := parts.foldl (fun top part => max top (magnitude part))
      (magnitude (parts.headD 0))
    let trusted : Int := if sum = 0 then -1 else magnitude sum - top + ((bits : Int) + 10)
    if (targetBits : Int) ≤ trusted || min extraBits (2 * bits) < bits - targetBits then
      (nearest targetBits sum, trusted)
    else
      let missing := ((targetBits : Int) - trusted).toNat
      sumFrom products fuel (bits + max (10 + Nat.pow 2 round) missing) (round + 1)

/-- The double that a sum of terms that is not rational is given as. A sum is rounded to no more
bits than can be trusted. -/
def roundReal (base : Rat) (terms : List RealTerm) : Binary64 :=
  match terms.map (·.toProduct base) with
  | [product] => .round (nearest 53 (product.approximate targetBits))
  | products =>
    let (sum, trusted) := sumFrom products (extraBits / 10 + 1) targetBits 0
    .round (nearest (max (min 53 trusted.toNat) 1) sum)

end FunctionStudy.Formula
