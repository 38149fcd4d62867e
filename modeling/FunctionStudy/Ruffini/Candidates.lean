import Std.Data.HashSet
import FunctionStudy.Number

/-! Candidate roots. A rational root of an integer polynomial is a divisor of the constant over a
divisor of the leading coefficient. Divisors are found by trial division up to the square root. -/

namespace FunctionStudy

/-- The divisors up to the square root, ascending. -/
def smallDivisors (n : Nat) : List Nat :=
  (List.range' 1 (Nat.sqrt n)).filter fun d => n % d = 0

/-- All divisors of a positive number, ascending: the small ones, then their partners. -/
def positiveDivisors (n : Nat) : List Nat :=
  let small := smallDivisors n
  small ++ (small.reverse.map (n / ·)).filter fun d => d * d ≠ n

/-- The divisors of a number that is a nonzero integer, ascending; other numbers have none. -/
def divisors (n : Number) (includeNegative : Bool) : Except Error (List Int) := do
  if n.isZero then return []
  match ← n.whole? with
  | none => return []
  | some whole =>
    let positive := (positiveDivisors whole.natAbs).map Int.ofNat
    return if includeNegative then positive.reverse.map (- ·) ++ positive else positive

def withoutRepeats (values : List Rat) : List Rat :=
  (values.foldl (fun (state : Std.HashSet Rat × List Rat) v =>
    if state.1.contains v then state else (state.1.insert v, v :: state.2))
    (∅, [])).2.reverse

/-- The candidates in the order they are tried: the constant, its divisors, the leading
coefficient, its positive divisors, and the ratios. -/
def candidateRoots (constant leading : Number) : Except Error (List Rat) := do
  let ps ← divisors constant true
  let qs ← divisors leading false
  let c ← constant.toRat
  let l ← leading.toRat
  let ofInts (ns : List Int) : List Rat := ns.map Int.cast
  let ratios := ps.flatMap fun (p : Int) => qs.map fun (q : Int) => (p / q : Rat)
  return withoutRepeats (c :: ofInts ps ++ l :: ofInts qs ++ ratios)

end FunctionStudy
