import FunctionStudy.Formula.Value
import FunctionStudy.Number

/-! Evaluating expression text. The text of a polynomial is given a value at a point. The value is
exact; `evaluate` turns it into a double at the end and `isZero` compares it with 0. -/

namespace FunctionStudy

open Formula (Collected Polynomial Value)

def sortedLetters (letters : List Char) : List String :=
  ((letters.mergeSort (· ≤ ·)).foldr (fun c kept => if kept.head? = some c then kept else c :: kept)
    []).map Char.toString

/-- The collected formula of a text whose only unknown is `letter`. What is all quotation is not even refused as a
formula. -/
def compile (text letter : String) : Except Error Collected :=
  match Formula.parse? letter text with
  | none =>
    match Formula.quotation? text with
    | some kind => .error (.conversion (.quotedText kind))
    | none => .error (.evaluation (.cannotParse text))
  | some f =>
    match f.collect with
    | .undefined => .ok .undefined
    | c =>
      match sortedLetters c.letters with
      | [] => .ok c
      | letters => .error (.evaluation (.unbound text letters))

namespace Formula

def Collected.valueAt (x : Rat) : Collected → Value
  | .polynomial p => p.valueAt x
  | _ => .undefined

/-- A real value as a double: the nearest one if the value is rational, and otherwise the double
that its leading bits round to. -/
def Value.toBinary64 : Value → Except Error Binary64
  | .undefined => .ok .nan
  | .rational v => .ok (.round v)
  | .irrational base terms => .ok (roundReal base terms)
  | .infinite | .nonReal => .error (.conversion .complexResult)

def Value.isZero : Value → Bool
  | .rational v => v = 0
  | _ => false

end Formula

/-- The value of a text at a point as a double. The text is read before the point. -/
def evaluate (text : String) (x : Number) (letter : String) : Except Error Binary64 := do
  let collected ← compile text letter
  (collected.valueAt (← x.toRat)).toBinary64

def isZero (text : String) (x : Number) (letter : String) : Except Error Bool := do
  let collected ← compile text letter
  return (collected.valueAt (← x.toRat)).isZero

end FunctionStudy
