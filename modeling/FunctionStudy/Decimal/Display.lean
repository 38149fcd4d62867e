import FunctionStudy.Decimal.Plain

/-! Numbers for the reader. In derivations a number is rounded to hundredths and shown as a reduced
fraction when numerator and denominator have at most two digits, else with two decimals. -/

namespace FunctionStudy.Decimal

/-- The size of a finite double in hundredths, a tie going to the even one. -/
def hundredths (x : Binary64) : Nat := fixedUnits 2 x.toRat

/-- Two decimals, or none for a whole number; zero has no sign. -/
def twoDecimals (x : Binary64) : String :=
  let h := hundredths x
  if h = 0 then "0"
  else if h % 100 = 0 then (if x.isNegative then "-" else "") ++ toString (h / 100)
  else fixedText 2 x

/-- The size in hundredths as two decimals would write it, without zeros at the end. -/
def shownDigits (x : Binary64) : String := stripZeros (fixedDigits 2 (hundredths x))

/-- How many digits follow the point of a text; without a point none do. -/
def placeCount (digits : String) : Nat := ((digits.toList.dropWhile (· != '.')).drop 1).length

/-- The power of ten that the digits of a text without its point are counted in. -/
def placeScale (digits : String) : Nat := Nat.pow 10 (placeCount digits)

/-- The number that the digits of a text write, the point left out. -/
def joinedDigits (digits : String) : Nat := Text.digitsValue (digits.toList.filter (· != '.'))

def largestDigitCount : Nat := 2

/-- The text of a number in a derivation, in plain text or LaTeX. -/
def displayText (latex : Bool) (x : Binary64) : String :=
  match x with
  | .nan => "nan"
  | .inf negative => (if negative then "-" else "+") ++ (if latex then "\\infty" else "∞")
  | _ =>
    let digits := shownDigits x
    if digits = "" ∨ digits = "0" then twoDecimals x
    else
      let divisor := (joinedDigits digits).gcd (placeScale digits)
      let numerator := joinedDigits digits / divisor
      let denominator := placeScale digits / divisor
      if denominator = 1 ∨ largestDigitCount < (toString numerator).length ∨
          largestDigitCount < (toString denominator).length then twoDecimals x
      else
        let sign := if x.isNegative then "-" else ""
        if latex then s!"{sign}\\frac\x7b{numerator}\x7d\x7b{denominator}\x7d"
        else s!"{sign}{numerator}/{denominator}"

/-- A number that may be missing; a missing coefficient counts as 1. -/
def displayOptional (latex : Bool) (x : Option Binary64) : String :=
  match x with
  | none => "1"
  | some x => displayText latex x

end FunctionStudy.Decimal
