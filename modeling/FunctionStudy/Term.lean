import FunctionStudy.Literal
import FunctionStudy.Decimal.Display
import FunctionStudy.Text.Letter

/-! Terms. A coefficient with an optional literal part: `-3x^2`, `+5`, `x`. The text before the
first letter is the coefficient, the rest the literal part. -/

namespace FunctionStudy

structure Term where
  coefficient : Binary64
  literal : Option Literal
deriving DecidableEq

namespace Term

/-- A coefficient text: a sign may stand alone before a letter and then means 1 or -1. A lone line
break passes as a number text without being one. -/
def parseCoefficient (chunk : String) (text : List Char) : Except Error Binary64 :=
  let (negative, body) := Decimal.splitSign text
  if body.isEmpty then .ok (.ofInt (if negative then -1 else 1))
  else if body = ['\n'] then .error (.conversion (.notADouble (String.ofList text)))
  else match Decimal.ofPlain? (Literal.dropFinalNewline body) with
    | some d => .ok { d with negative }.toBinary64
    | none => .error (.parse (.invalidCoefficient chunk))

def parse (chunk : String) : Except Error Term := do
  if chunk.isEmpty then throw (.parse .emptyTerm)
  let cs := chunk.toList
  let number := cs.takeWhile fun c => !Text.isLetter c
  let literal ← Literal.parse (String.ofList (cs.dropWhile fun c => !Text.isLetter c))
  let coefficient ← parseCoefficient chunk number
  if literal.isNone && (Decimal.splitSign number).2.isEmpty then
    throw (.parse (.danglingSign chunk))
  return ⟨coefficient, literal⟩

def constant (c : Binary64) : Term := ⟨c, none⟩

/-- The exponent; a term without literal part has exponent 0. -/
def exponent (t : Term) : Binary64 := (t.literal.map (·.exponent)).getD .zero

def isConstant (t : Term) : Bool := (t.literal.map (·.exponent.isZero)).getD true

def key (t : Term) : String := (t.literal.map (·.key)).getD ""

def negated (t : Term) : Term := { t with coefficient := t.coefficient.neg }

def scaled (t : Term) (factor : Binary64) : Term :=
  { t with coefficient := t.coefficient.mul factor }

/-- The text after the sign is put in front; a coefficient of 1 or -1 before a letter is not
written. -/
def format (t : Term) (asFraction : Bool) : String :=
  let number :=
    if asFraction then Decimal.displayText false t.coefficient
    else Decimal.plainText t.coefficient
  let signed := if number.startsWith "-" then number else "+" ++ number
  match t.literal with
  | none => signed
  | some l =>
    if t.coefficient.same (.ofInt 1) then "+" ++ l.format
    else if t.coefficient.same (.ofInt (-1)) then "-" ++ l.format
    else signed ++ l.format

def bareText (t : Term) (asFraction : Bool) : String :=
  String.ofList ((t.format asFraction).toList.dropWhile (· == '+'))

/-- Numerically equal coefficients and equal literal parts. -/
def same (t u : Term) : Bool :=
  t.coefficient.same u.coefficient &&
    match t.literal, u.literal with
    | none, none => true
    | some l, some m => l.same m
    | _, _ => false

end Term
end FunctionStudy
