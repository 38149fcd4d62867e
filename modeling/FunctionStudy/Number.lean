import FunctionStudy.Error

/-! Numbers given by callers. A caller gives a number exactly, as an integer or fraction, or as a
double. The exact value of a double is the one its plain text writes. -/

namespace FunctionStudy

inductive Number where
  | exact (value : Rat)
  | double (x : Binary64)
deriving DecidableEq

namespace Number

def toRat : Number → Except Error Rat
  | .exact v => .ok v
  | .double x => Decimal.exact x

/-- The nearest double; an exact number beyond all doubles has none. -/
def toBinary64 : Number → Except Error Binary64
  | .double x => .ok x
  | .exact v => if v.den = 1 then Binary64.ofIntChecked v.num else Binary64.ofRatChecked v

def isZero : Number → Bool
  | .exact v => v = 0
  | .double x => x.isZero

def truncated : Number → Except Error Int
  | .exact v => .ok (v.num.tdiv v.den)
  | .double x => x.toInt

/-- The integer that the number's double is, if it is one. -/
def whole? (n : Number) : Except Error (Option Int) := do
  let x ← n.toBinary64
  let whole ← n.truncated
  return if x.toRat = whole then some whole else none

end Number
end FunctionStudy
