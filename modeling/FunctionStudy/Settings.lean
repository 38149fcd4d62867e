import FunctionStudy.Error

/-! Settings. Limits of the algebraic routines, the tolerance under which a coefficient or
discriminant counts as zero, and the form of traces. -/

namespace FunctionStudy

structure Settings where
  maxDepth : Int
  maxDegree : Int
  maxDivisor : Int
  zeroTolerance : Binary64
  traceFormat : String
  logLevel : String
  worksheetPath : Option String
deriving DecidableEq

namespace Settings

def defaults : Settings where
  maxDepth := 8
  maxDegree := 100
  maxDivisor := 1000000000000
  zeroTolerance := .round (1 / 10 ^ (12 : Nat))
  traceFormat := "text"
  logLevel := "INFO"
  worksheetPath := none

/-- Whether a computed number counts as zero. -/
def isZero (s : Settings) (x : Binary64) : Bool := x.abs.le s.zeroTolerance

def isLatex (s : Settings) : Bool := s.traceFormat == "latex"

end Settings

/-- Whether a double is greater than an integer, without rounding the integer. -/
def Binary64.exceeds (x : Binary64) (limit : Int) : Bool :=
  match x with
  | .nan => false
  | .inf negative => !negative
  | _ => limit < x.toRat

/-- Refuses degrees above the limit; `text` names what has that degree. -/
def Settings.checkDegree (s : Settings) (degree : Binary64) (text : String) : Except Error Unit :=
  if degree.exceeds s.maxDegree then .error (.domain (.degreeLimit text s.maxDegree)) else .ok ()

end FunctionStudy
