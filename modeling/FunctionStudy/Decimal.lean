import FunctionStudy.Binary64.Arithmetic
import FunctionStudy.Text.Blank
import FunctionStudy.Text.Digit

/-! Reading decimal numbers. A `Decimal` is the exact number that a text writes; rounding it to a
double is a separate step. Digits of every script are digits. -/

namespace FunctionStudy

/-- The number `digits * 10 ^ exponent`, or its opposite. -/
structure Decimal where
  negative : Bool
  digits : Nat
  exponent : Int
deriving DecidableEq

namespace Decimal

def toRat (d : Decimal) : Rat :=
  let size : Rat := d.digits * (10 : Rat) ^ d.exponent
  if d.negative then -size else size

/-- How many decimal digits `n` has; zero has none. -/
def digitCount (n : Nat) : Nat := if n = 0 then 0 else (Nat.toDigits 10 n).length

/-- The nearest double. Sizes far outside the range of doubles are settled by their exponent. -/
def toBinary64 (d : Decimal) : Binary64 :=
  if d.digits = 0 then .signedZero d.negative
  else if 400 < d.exponent + digitCount d.digits then .inf d.negative
  else if d.exponent + digitCount d.digits < -400 then .signedZero d.negative
  else .round d.toRat

/-- The plain spelling without sign: `digits`, `digits.digits` or `.digits`. -/
def ofPlain? (cs : List Char) : Option Decimal :=
  let whole := cs.takeWhile Text.isDigit
  match cs.dropWhile Text.isDigit with
  | [] => if whole.isEmpty then none else some ⟨false, Text.digitsValue whole, 0⟩
  | '.' :: places =>
    if !places.isEmpty && places.all Text.isDigit then
      some ⟨false, Text.digitsValue (whole ++ places), -places.length⟩
    else none
  | _ => none

/-- Removes the underscores of a digit run; nothing if one does not stand between two digits. -/
def joinDigits? : List Char → Option (List Char)
  | [] => some []
  | [c] => if Text.isDigit c then some [c] else none
  | c :: '_' :: d :: rest =>
    if Text.isDigit c && Text.isDigit d then (joinDigits? (d :: rest)).map (c :: ·) else none
  | c :: rest => if Text.isDigit c then (joinDigits? rest).map (c :: ·) else none

def splitSign : List Char → Bool × List Char
  | '-' :: rest => (true, rest)
  | '+' :: rest => (false, rest)
  | cs => (false, cs)

def readInt? (text : String) : Option Int :=
  let (negative, body) := splitSign (Text.trim Text.isPadding text.toList)
  if body.isEmpty then none
  else (joinDigits? body).map fun digits =>
    let value : Int := Text.digitsValue digits
    if negative then -value else value

/-- A finite number in the free spelling, its sign already read. -/
def ofFree? (negative : Bool) (cs : List Char) : Option Decimal := do
  let isMark (c : Char) : Bool := c == 'e' || c == 'E'
  let significand := cs.takeWhile fun c => !isMark c
  let whole ← joinDigits? (significand.takeWhile (· != '.'))
  let places ← joinDigits? ((significand.dropWhile (· != '.')).drop 1)
  if whole.isEmpty && places.isEmpty then none
  let exponent : Int ← match cs.dropWhile fun c => !isMark c with
    | [] => some 0
    | _ :: scale =>
      let (down, digits) := splitSign scale
      if digits.isEmpty then none
      else (joinDigits? digits).map fun ds =>
        if down then -(Text.digitsValue ds : Int) else Text.digitsValue ds
  return ⟨negative, Text.digitsValue (whole ++ places), exponent - places.length⟩

def readDouble? (text : String) : Option Binary64 :=
  let (negative, body) := splitSign (Text.trim Text.isPadding text.toList)
  let word := String.ofList (body.map Char.toLower)
  if word = "inf" || word = "infinity" then some (.inf negative)
  else if word = "nan" then some .nan
  else (ofFree? negative body).map toBinary64

end Decimal
end FunctionStudy
