import FunctionStudy.Binary64

/-! Fixed places. A number with a fixed count of decimal places is the nearest multiple of the last
place; a tie of the exact value goes to the even digit. -/

namespace FunctionStudy.Decimal

/-- `n / 10 ^ places` for a natural number `n`, with exactly `places` digits after the point. -/
def fixedDigits (places n : Nat) : String :=
  let digits := Nat.toDigits 10 n
  let padded := List.replicate (places + 1 - digits.length) '0' ++ digits
  let whole := padded.length - places
  String.ofList (padded.take whole) ++
    (if places = 0 then "" else "." ++ String.ofList (padded.drop whole))

/-- The size of `v` in units of the last place. -/
def fixedUnits (places : Nat) (v : Rat) : Nat :=
  (nearestEven (v.abs * 10 ^ places)).toNat

/-- A finite double with `places` decimals; the sign is kept even when every digit is zero. -/
def fixedText (places : Nat) (x : Binary64) : String :=
  (if x.isNegative then "-" else "") ++ fixedDigits places (fixedUnits places x.toRat)

end FunctionStudy.Decimal
