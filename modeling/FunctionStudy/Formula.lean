import FunctionStudy.Formula.Token

/-! Formulas. Sums of products of powers. Neighbouring factors multiply; a power binds tighter than
a product and than a sign, and its exponent may carry signs of its own. -/

namespace FunctionStudy

inductive Formula where
  | number (value : Rat)
  | symbol (s : Formula.Symbol)
  | undefined
  | negate (operand : Formula)
  | sum (left right : Formula)
  | product (left right : Formula)
  | power (base exponent : Formula)
deriving DecidableEq

namespace Formula

/-- Reads a formula at the front of the tokens and returns what is left of them. -/
abbrev Reader := List Token → Option (Formula × List Token)

/-- Skips signs; tells whether they amount to a minus. -/
def signs : List Token → Bool × List Token
  | .plus :: rest => signs rest
  | .minus :: rest => let (negative, after) := signs rest; (!negative, after)
  | rest => (false, rest)

def signed (negative : Bool) (f : Formula) : Formula := if negative then .negate f else f

def readAtom (group : Reader) : Reader
  | .number value :: rest => some (.number value, rest)
  | .symbol s :: rest => some (.symbol s, rest)
  | .undefined :: rest => some (.undefined, rest)
  | .opening :: rest => group rest
  | _ => none

def readPower (group : Reader) : Nat → Reader
  | 0, _ => none
  | fuel + 1, tokens => do
    let (base, rest) ← readAtom group tokens
    match rest with
    | .power :: rest =>
      let (negative, rest) := signs rest
      let (exponent, rest) ← readPower group fuel rest
      return (.power base (signed negative exponent), rest)
    | rest => return (base, rest)

/-- Whether the tokens go on with another factor of the same product. -/
def startsFactor : List Token → Bool
  | .number _ :: _ | .symbol _ :: _ | .undefined :: _ | .opening :: _ => true
  | _ => false

def readProduct (group : Reader) : Nat → Reader
  | 0, _ => none
  | fuel + 1, tokens => do
    let (first, rest) ← readPower group (fuel + 1) tokens
    if startsFactor rest then do
      let (others, rest) ← readProduct group fuel rest
      return (.product first others, rest)
    else return (first, rest)

def readSum (group : Reader) : Nat → Reader
  | 0, _ => none
  | fuel + 1, tokens => do
    let (negative, rest) := signs tokens
    let (first, rest) ← readProduct group (fuel + 1) rest
    match rest with
    | .plus :: _ | .minus :: _ => do
      let (others, rest) ← readSum group fuel rest
      return (.sum (signed negative first) others, rest)
    | rest => return (signed negative first, rest)

/-- Reads a group after its opening parenthesis, nested at most `depth` deep. -/
def readGroup : Nat → Reader
  | 0, _ => none
  | depth + 1, tokens => do
    match ← readSum (readGroup depth) tokens.length tokens with
    | (inner, .closing :: rest) => return (inner, rest)
    | _ => none

/-- The formula that a whole text writes, with `unknown` as its variable. -/
def parse? (unknown text : String) : Option Formula := do
  let tokens ← tokens? unknown text
  match ← readSum (readGroup tokens.length) tokens.length tokens with
  | (f, []) => return f
  | _ => none

end Formula
end FunctionStudy
