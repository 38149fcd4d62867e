import FunctionStudy.Binary64.Arithmetic

/-! Square root and angle of a double. The square root is exact up to one rounding: the integer root
of the value, counted in very fine steps, is kept together with whether anything was cut off. The
arctangent is the machine's. -/

namespace FunctionStudy.Binary64

/-- The correctly rounded square root; a negative number has none and gives `nan`. -/
def sqrt : Binary64 → Binary64
  | .nan => .nan
  | .inf negative => if negative then .nan else .inf false
  | .negZero => .negZero
  | .finite v _ =>
    if v < 0 then .nan
    else
      -- `v` is a whole number of steps of `2^-1074`, so this is an integer.
      let fine := (v * 2 ^ (1274 : Nat)).floor.toNat
      let root := Nat.sqrt fine
      let cut := if root * root = fine then 0 else 1
      round ((2 * root + cut : Nat) / 2 ^ (638 : Nat))

def toFloat : Binary64 → Float
  | .nan => 0.0 / 0.0
  | .inf negative => if negative then -1.0 / 0.0 else 1.0 / 0.0
  | .negZero => -0.0
  | .finite v _ =>
    let significand := (v.abs * 2 ^ (1074 : Nat) / 2 ^ excessBits v).floor.toNat
    let size := (Float.ofNat significand).scaleB ((excessBits v : Int) - 1074)
    if v < 0 then -size else size

/-- The value that an IEEE bit pattern stands for. -/
def ofBits (bits : UInt64) : Binary64 :=
  let negative := bits >>> 63 = 1
  let exponent := ((bits >>> 52) &&& 0x7ff).toNat
  let fraction := (bits &&& 0xfffffffffffff).toNat
  if exponent = 0x7ff then
    if fraction = 0 then .inf negative else .nan
  else if exponent = 0 ∧ fraction = 0 then signedZero negative
  else
    let steps : Rat :=
      if exponent = 0 then fraction
      else ((4503599627370496 + fraction : Nat) : Rat) * 2 ^ (exponent - 1)
    round ((if negative then -steps else steps) / 2 ^ (1074 : Nat))

def ofFloat (x : Float) : Binary64 := ofBits x.toBits

def arctan (x : Binary64) : Binary64 := ofFloat x.toFloat.atan

/-- The double nearest to `180 / π`. -/
def degreesPerRadian : Binary64 := round (1007958012753983 / 2 ^ (44 : Nat))

def toDegrees (radians : Binary64) : Binary64 := radians.mul degreesPerRadian

end FunctionStudy.Binary64
