import FunctionStudy.Decimal

/-! Shortest decimals of doubles. The digits written for a double are the fewest that read back to
it, and of those the nearest to its value. -/

namespace FunctionStudy.Decimal

/-- The exponent of the leading decimal digit of a positive rational. -/
def leadingExponent (v : Rat) : Int :=
  if 1 ≤ v then (digitCount v.floor.toNat : Int) - 1
  else -(digitCount ((1 / v).ceil.toNat - 1) : Int)

/-- The multiple of `10 ^ step` next to `v` that rounds to the double `x`, if there is one. -/
def neighbour? (v : Rat) (x : Binary64) (step : Int) : Option Decimal :=
  let grid : Rat := (10 : Rat) ^ step
  let below := (v / grid).floor.toNat
  let readsBack (n : Nat) : Bool := Binary64.round (n * grid) = x
  let lower : Decimal := ⟨false, below, step⟩
  let upper : Decimal := ⟨false, below + 1, step⟩
  if readsBack below then
    if readsBack (below + 1) && nearestEven (v / grid) != below then some upper else some lower
  else if readsBack (below + 1) then some upper
  else none

/-- The shortest decimal for the double nearest to a positive rational: seventeen digits always
suffice. -/
def shortest (v : Rat) : Decimal :=
  let lead := leadingExponent v
  let x := Binary64.round v
  let found := (List.range 17).findSome? fun (extra : Nat) => neighbour? v x (lead - (extra : Int))
  found.getD ⟨false, (v / (10 : Rat) ^ (lead - 16)).floor.toNat, lead - 16⟩

/-- The significant digits, without zeros at the end, and the exponent of the first one. -/
def significant (d : Decimal) : List Char × Int :=
  let all := Nat.toDigits 10 d.digits
  let kept := (all.reverse.dropWhile (· == '0')).reverse
  (kept, d.exponent + all.length - 1)

/-- Digits with the point after the first `1 + exponent` of them; a whole number keeps `.0`. -/
def positional (digits : List Char) (exponent : Int) : String :=
  if exponent < 0 then
    "0." ++ String.ofList (List.replicate (-exponent - 1).toNat '0' ++ digits)
  else
    let whole := exponent.toNat + 1
    let padded := digits ++ List.replicate (whole - digits.length) '0'
    let places := padded.drop whole
    String.ofList (padded.take whole) ++ "." ++
      (if places.isEmpty then "0" else String.ofList places)

/-- One digit, the point, the others, and a signed exponent of at least two digits. -/
def scientific (digits : List Char) (exponent : Int) : String :=
  let rest := digits.drop 1
  let size := toString exponent.natAbs
  String.ofList (digits.take 1) ++ (if rest.isEmpty then "" else "." ++ String.ofList rest) ++
    "e" ++ (if exponent < 0 then "-" else "+") ++ (if size.length < 2 then "0" ++ size else size)

/-- A double as data files write it: positional from `10 ^ -4` up to `10 ^ 16`, scientific
beyond. -/
def shortestText : Binary64 → String
  | .nan => "nan"
  | .inf negative => if negative then "-inf" else "inf"
  | .negZero => "-0.0"
  | .finite v _ =>
    if v = 0 then "0.0"
    else
      let (digits, exponent) := significant (shortest v.abs)
      let body :=
        if -4 ≤ exponent ∧ exponent < 16 then positional digits exponent
        else scientific digits exponent
      if v < 0 then "-" ++ body else body

end FunctionStudy.Decimal
