import FunctionStudy.Binary64

/-! Radicals. A fractional power of a positive rational is written as a rational times radicals with
whole radicands: denominators are made rational, perfect powers are taken out of the radicands, and
there is one radical for each power. -/

namespace FunctionStudy.Formula

/-- The integer `k`-th root of `n`, by bisection between `low` and `high`. -/
def rootBelow (k n : Nat) : Nat → Nat → Nat → Nat
  | 0, low, _ => low
  | fuel + 1, low, high =>
    if high ≤ low + 1 then low
    else
      let middle := (low + high) / 2
      if Nat.pow middle k ≤ n then rootBelow k n fuel middle high else rootBelow k n fuel low middle

def floorRoot (k n : Nat) : Nat :=
  let high := 1 <<< (n.log2 / k + 1)
  rootBelow k n (high.log2 + 1) 0 high

def exactRoot? (k n : Nat) : Option Nat :=
  let root := floorRoot k n
  if Nat.pow root k = n then some root else none

/-- A positive rational other than 1 as a power, with the largest possible exponent. -/
def asPower (v : Rat) : Rat × Nat :=
  let size := max v.num.toNat v.den
  let candidates := (List.range (size.log2 + 1)).reverse
  let found := candidates.findSome? fun k =>
    if k < 2 then none
    else match exactRoot? k v.num.toNat, exactRoot? k v.den with
      | some n, some d => some ((n : Rat) / d, k)
      | _, _ => none
  found.getD (v, 1)

def fractional (v : Rat) : Rat := v - v.floor

/-- How often `d` divides `n`, and what is left. -/
def divideOut (d : Nat) : Nat → Nat → Nat × Nat
  | 0, n => (0, n)
  | fuel + 1, n =>
    if n % d = 0 then
      let (count, rest) := divideOut d fuel (n / d)
      (count + 1, rest)
    else (0, n)

/-- The prime powers of `n` found among `fuel` trial divisors from `d` on. What is left is
counted as a prime. -/
def primePowersFrom : Nat → Nat → Nat → List (Nat × Nat)
  | 0, _, n => if n = 1 then [] else [(n, 1)]
  | fuel + 1, d, n =>
    if n < d * d then (if n = 1 then [] else [(n, 1)])
    else
      match divideOut d (n.log2 + 1) n with
      | (0, _) => primePowersFrom fuel (d + 1) n
      | (count, rest) => (d, count) :: primePowersFrom fuel (d + 1) rest

/-- The trial divisors end here, so that a huge number without small divisors takes no longer. -/
def trialBound : Nat := 32768

def primePowers (n : Nat) : List (Nat × Nat) := primePowersFrom trialBound 2 n

/-- `radicand ^ power`, where `power` lies between 0 and 1. -/
structure Radical where
  radicand : Nat
  power : Rat
deriving DecidableEq

namespace Radical

/-- The product of prime powers to a power between 0 and 1. Whole powers leave the radical. A prime
whose power can be reduced has a radical of its own; the others share one. -/
def ofPrimePowers (factors : List (Nat × Nat)) (power : Rat) : Nat × List Radical :=
  let shares := factors.map fun (p, count) => (p, count * power.num.toNat)
  let whole := shares.foldl (fun product (p, n) => product * Nat.pow p (n / power.den)) 1
  let remainders := shares.map fun (p, n) => (p, n % power.den)
  let (shared, single) := remainders.partition fun (_, r) => Nat.gcd r power.den = 1
  let divisor := shared.foldl (fun g (_, r) => Nat.gcd g r) 0
  let radicand := shared.foldl (fun product (p, r) => product * Nat.pow p (r / divisor)) 1
  let ofShare := fun (p r : Nat) => Radical.mk p ((r : Rat) / power.den)
  let singles := (single.filter fun (_, r) => r ≠ 0).map fun (p, r) => ofShare p r
  (whole, singles ++ if divisor = 0 then [] else [ofShare radicand divisor])

/-- `base ^ power` for a positive natural number and a power in `[0, 1)`. -/
def ofNat (base : Nat) (power : Rat) : Nat × List Radical :=
  let (root, multiple) := asPower base
  let total := multiple * power
  let root := root.num.toNat
  let (whole, radicals) := ofPrimePowers (primePowers root) (fractional total)
  (Nat.pow root total.floor.toNat * whole, radicals)

/-- Multiplies by a radical; the radicands of equal powers are multiplied. -/
def insert (r : Radical) : List Radical → List Radical
  | [] => [r]
  | s :: rest =>
    if r.power = s.power then ⟨s.radicand * r.radicand, s.power⟩ :: rest else s :: insert r rest

/-- `base ^ power` for a positive rational and a power in `[0, 1)`: a rational and radicals. The
denominator `d` gives `d ^ (1 - power) / d`. -/
def ofRat (base : Rat) (power : Rat) : Rat × List Radical :=
  if power = 0 then (1, [])
  else
    let (above, upper) := ofNat base.num.toNat power
    let (below, lower) := ofNat base.den (1 - power)
    (((above * below : Nat) : Rat) / base.den,
      (upper ++ lower).foldl (fun radicals r => insert r radicals) [])

end Radical
end FunctionStudy.Formula
