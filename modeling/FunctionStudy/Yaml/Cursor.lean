/-! Positions in YAML text. A cursor is what is left of a text with the line and column where it
stands. YAML knows five line breaks; two characters, carriage return and line feed, are one of them. -/

namespace FunctionStudy.Yaml

def isBreak (c : Char) : Bool :=
  c == '\n' || c == '\r' || c == '\u0085' || c == '\u2028' || c == '\u2029'

/-- Whether a character that may be missing is the end, a blank, a tab or a line break. -/
def endsWord : Option Char → Bool
  | none => true
  | some c => c == ' ' || c == '\t' || isBreak c

def endsField : Option Char → Bool
  | none => true
  | some c => c == ' ' || isBreak c

def endsLine : Option Char → Bool
  | none => true
  | some c => isBreak c

/-- Characters that may stand in a text at all. -/
def isAllowed (c : Char) : Bool :=
  c == '\t' || c == '\n' || c == '\r' || (' ' ≤ c && c ≤ '~') || c == '\u0085' ||
    ('\u00a0' ≤ c && c ≠ '\ufffe' && c ≠ '\uffff')

structure Cursor where
  rest : List Char
  /-- How many characters came before. -/
  index : Nat
  line : Nat
  column : Nat

namespace Cursor

def start (text : List Char) : Cursor := ⟨text, 0, 0, 0⟩

def peek (c : Cursor) : Option Char := c.rest.head?

def peekAt (c : Cursor) (k : Nat) : Option Char := c.rest[k]?

def sees (c : Cursor) (x : Char) : Bool := c.peek == some x

/-- Passes one character. A byte order mark takes no column. -/
def next (c : Cursor) : Cursor :=
  match c.rest with
  | [] => c
  | x :: rest =>
    if isBreak x && !(x == '\r' && rest.head? == some '\n') then ⟨rest, c.index + 1, c.line + 1, 0⟩
    else ⟨rest, c.index + 1, c.line, if x == '\ufeff' then c.column else c.column + 1⟩

def advance (c : Cursor) (n : Nat) : Cursor := Nat.repeat next n c

/-- The characters from here on that satisfy a condition, and the cursor behind them. -/
def span (c : Cursor) (p : Char → Bool) : List Char × Cursor :=
  let taken := c.rest.takeWhile p
  (taken, c.advance taken.length)

def skip (c : Cursor) (p : Char → Bool) : Cursor := (c.span p).2

def skipSpaces (c : Cursor) : Cursor := c.skip (· == ' ')

/-- Passes a line break, if there is one. All but the Unicode separators are read as a line
feed. -/
def lineBreak? (c : Cursor) : Option (Char × Cursor) :=
  match c.rest with
  | '\r' :: '\n' :: _ => some ('\n', c.advance 2)
  | x :: _ =>
    if x == '\u2028' || x == '\u2029' then some (x, c.next)
    else if isBreak x then some ('\n', c.next)
    else none
  | [] => none

def skipComment (c : Cursor) : Cursor :=
  if c.sees '#' then c.skip (!isBreak ·) else c

/-- Whether three equal marks stand here as a word of their own. -/
def seesMarker (c : Cursor) (x : Char) : Bool :=
  c.rest.take 3 == [x, x, x] && endsWord (c.peekAt 3)

def seesSeparator (c : Cursor) : Bool := c.seesMarker '-' || c.seesMarker '.'

end Cursor
end FunctionStudy.Yaml
