import FunctionStudy.Decimal

/-! Tokens of formulas. A formula is read without regard to what its terms were before they were
printed, so a letter behind a number may become a part of it. -/

namespace FunctionStudy.Formula

inductive Symbol where
  | unknown
  | euler
  | imaginaryUnit
  | letter (c : Char)
deriving DecidableEq

inductive Token where
  | number (value : Rat)
  | symbol (s : Symbol)
  | undefined
  | power
  | plus
  | minus
  | opening
  | closing
deriving DecidableEq

def isReserved (c : Char) : Bool := c == 'N' || c == 'O' || c == 'Q' || c == 'S'

def Symbol.ofChar? (unknown : String) (c : Char) : Option Symbol :=
  if c.toString = unknown then some .unknown
  else if c = 'E' then some .euler
  else if c = 'I' then some .imaginaryUnit
  else if isReserved c then none
  else some (.letter c)

/-- The symbols of a run of letters. Only the run `nan` is a word. -/
def ofLetters? (unknown : String) (letters : List Char) : Option (List Token) :=
  if letters = ['n', 'a', 'n'] then some [.undefined]
  else letters.mapM fun c => (Symbol.ofChar? unknown c).map Token.symbol

/-- The exponent that follows a number and what comes after it; a mark without digits is not an
exponent. -/
def scale (cs : List Char) : Int × List Char :=
  match cs with
  | [] => (0, [])
  | mark :: rest =>
    let (negative, digits) := Decimal.splitSign rest
    let value : Int := Text.digitsValue (digits.takeWhile Char.isDigit)
    if (mark = 'e' ∨ mark = 'E') ∧ (digits.takeWhile Char.isDigit) ≠ [] then
      (if negative then -value else value, digits.dropWhile Char.isDigit)
    else (0, cs)

def number? (cs : List Char) : Option (Rat × List Char) :=
  let whole := cs.takeWhile Char.isDigit
  let afterWhole := cs.dropWhile Char.isDigit
  let (places, rest) := match afterWhole with
    | '.' :: more => (more.takeWhile Char.isDigit, more.dropWhile Char.isDigit)
    | _ => ([], afterWhole)
  if whole.isEmpty && places.isEmpty then none
  else
    let (exponent, rest) := scale rest
    some (Decimal.toRat ⟨false, Text.digitsValue (whole ++ places), exponent - places.length⟩, rest)

def punctuation? (c : Char) : Option Token :=
  if c = '+' then some .plus
  else if c = '-' then some .minus
  else if c = '^' then some .power
  else if c = '(' then some .opening
  else if c = ')' then some .closing
  else none

/-- The tokens of at most `fuel` steps; every step takes a character at least. -/
def scan (unknown : String) : Nat → List Char → Option (List Token)
  | _, [] => some []
  | 0, _ :: _ => none
  | fuel + 1, c :: cs =>
    match punctuation? c with
    | some token => (scan unknown fuel cs).map (token :: ·)
    | none =>
      if c = ' ' then scan unknown fuel cs
      else if c.isAlpha then do
        let names ← ofLetters? unknown (c :: cs.takeWhile Char.isAlpha)
        let others ← scan unknown fuel (cs.dropWhile Char.isAlpha)
        return names ++ others
      else do
        let (value, rest) ← number? (c :: cs)
        match rest with
        | 'j' :: rest => do
          return .number value :: .symbol .imaginaryUnit :: (← scan unknown fuel rest)
        | 'J' :: rest => do
          return .number value :: .symbol .imaginaryUnit :: (← scan unknown fuel rest)
        | rest => do
          return .number value :: (← scan unknown fuel rest)

/-- The tokens of a text in which `unknown` names the variable, or nothing if it has others. -/
def tokens? (unknown text : String) : Option (List Token) :=
  scan unknown text.length text.toList

end FunctionStudy.Formula
