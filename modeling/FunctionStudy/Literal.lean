import FunctionStudy.Error

/-! Literal parts. One letter, possibly with prime marks, raised to an exponent: `x`, `t^0.5`,
`y''`. Primes label derivatives and carry no meaning of their own. -/

namespace FunctionStudy

structure Literal where
  letter : String
  exponent : Binary64
  /-- The letter names a function; its exponent 1 is then a count and not a double. -/
  isLabel : Bool := false
deriving DecidableEq

namespace Literal

def ofLetter (letter : String) : Literal := { letter, exponent := .ofInt 1 }

def label (name : String) : Literal := { ofLetter name with isLabel := true }

/-- A text may end in one line break that the patterns below do not look at. -/
def dropFinalNewline (cs : List Char) : List Char :=
  if cs.getLast? = some '\n' then cs.dropLast else cs

def isAsciiLetter (c : Char) : Bool := c.isAlpha

/-- One ASCII letter, then prime marks only. -/
def isLetterName (cs : List Char) : Bool :=
  match dropFinalNewline cs with
  | [] => false
  | c :: primes => isAsciiLetter c && primes.all (· == '\'')

/-- The unsigned plain number of an exponent, which needs digits before its point. -/
def exponent? (cs : List Char) : Option Decimal :=
  let body := dropFinalNewline cs
  if (body.head?.map Text.isDigit).getD false then Decimal.ofPlain? body else none

/-- Reads a literal token; no text means no literal part. Points and commas that stand beside the
letter are dropped. -/
def parse (token : String) : Except Error (Option Literal) :=
  if token.isEmpty then .ok none
  else
    let refuse {α : Type} (cause : String → ParseError) : Except Error α :=
      .error (.parse (cause token))
    let cs := token.toList
    let written := cs.takeWhile (· != '^')
    let letter := written.filter fun c => c != ',' && c != '.'
    let power := (cs.dropWhile (· != '^')).drop 1
    if power.contains '^' then refuse .tooManyPowers
    else if !isLetterName letter then refuse .invalidLiteral
    else if !cs.contains '^' then .ok (some (ofLetter (String.ofList letter)))
    else match exponent? power with
      | some e => .ok (some { letter := String.ofList letter, exponent := e.toBinary64 })
      | none => refuse .invalidExponent

/-- What like terms share; exponent 0 belongs to the constants. -/
def key (l : Literal) : String :=
  if l.exponent.isZero then "" else l.letter ++ "^" ++ Decimal.plainText l.exponent

/-- The letter, with its exponent unless that is 0 or 1. -/
def format (l : Literal) : String :=
  if l.exponent.isZero || l.exponent.same (.ofInt 1) then l.letter
  else l.letter ++ "^" ++ Decimal.plainText l.exponent

def same (l m : Literal) : Bool := l.letter == m.letter && l.exponent.same m.exponent

end Literal
end FunctionStudy
