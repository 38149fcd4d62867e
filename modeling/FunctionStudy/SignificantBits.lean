import FunctionStudy.Binary64

/-! Rationals with few significant bits. A rational is brought to a given number of significant
binary digits, toward zero, away from zero or to the nearest. Unlike a double, such a value has no
least and no greatest exponent. -/

namespace FunctionStudy.SignificantBits

/-- The least `e` with `|v| < 2 ^ e`; for 0, which has none, it is 0. -/
def magnitude (v : Rat) : Int :=
  if v = 0 then 0
  else if 1 ≤ v.abs then (v.abs.floor.toNat.log2 : Int) + 1
  else -(((1 / v.abs).ceil.toNat - 1).log2 : Int)

/-- The step between values of the magnitude of `v` that have `bits` significant bits. -/
def step (bits : Nat) (v : Rat) : Rat := (2 : Rat) ^ (magnitude v - (bits : Int))

/-- The first `bits` significant bits of `v`; what follows is dropped. -/
def cut (bits : Nat) (v : Rat) : Rat :=
  let size := ((v.abs / step bits v).floor : Rat) * step bits v
  if v < 0 then -size else size

/-- The least value of `bits` significant bits that is at least the positive `v`. -/
def cutUp (bits : Nat) (v : Rat) : Rat := ((v / step bits v).ceil : Rat) * step bits v

def nearest (bits : Nat) (v : Rat) : Rat := (nearestEven (v / step bits v) : Rat) * step bits v

end FunctionStudy.SignificantBits
