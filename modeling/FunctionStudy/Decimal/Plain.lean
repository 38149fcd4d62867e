import FunctionStudy.Decimal.Shortest
import FunctionStudy.Decimal.Fixed

/-! Plain numbers inside expressions. The number text of expressions has no exponent notation and no
`.0`. It is what an exact value is read from again, so a double smaller than the twentieth place
loses digits or becomes 0 here. -/

namespace FunctionStudy.Decimal

/-- Removes zeros at the end of a text, then one point. -/
def stripZeros (text : String) : String :=
  match text.toList.reverse.dropWhile (· == '0') with
  | '.' :: rest => String.ofList rest.reverse
  | rest => String.ofList rest.reverse

/-- A double as expressions write it. Where the shortest text would need an exponent, the first
twenty places are written instead. -/
def plainText (x : Binary64) : String :=
  match x with
  | .nan => "nan"
  | .inf negative => if negative then "-inf" else "+inf"
  | .negZero => "0"
  | .finite v _ =>
    if v.den = 1 then toString v.num
    else if (significant (shortest v.abs)).2 < -4 then stripZeros (fixedText 20 x)
    else shortestText x

def exactValue? (x : Binary64) : Option Rat :=
  let (negative, body) := splitSign (plainText x).toList
  (ofPlain? body).map fun d => { d with negative }.toRat

end FunctionStudy.Decimal
