import FunctionStudy.Yaml.Cursor

/-! Scalars as they are written in YAML. Quoted, plain and block scalars, read from a cursor. Inside
quoted and plain scalars a single line break is a blank, and of several the first is dropped. -/

namespace FunctionStudy.Yaml

def isBlank (c : Char) : Bool := c == ' ' || c == '\t'

/-- What a line break and the breaks right after it stand for. -/
def folded (first : Char) (more : List Char) : List Char :=
  (if first ≠ '\n' then [first] else if more.isEmpty then [' '] else []) ++ more

/-! ## Quoted scalars -/

/-- The breaks of blank lines inside quotes; a document must not start or end there. -/
def quotedBreaks : Nat → Cursor → Option (List Char × Cursor)
  | 0, _ => none
  | fuel + 1, c => do
    if c.seesSeparator then none
    let c := c.skip isBlank
    match c.lineBreak? with
    | some (b, c) =>
      let (more, c) ← quotedBreaks fuel c
      return (b :: more, c)
    | none => return ([], c)

/-- Blanks and line breaks inside quotes; blanks beside a break do not count. -/
def quotedSpaces (fuel : Nat) (c : Cursor) : Option (List Char × Cursor) := do
  let (blanks, c) := c.span isBlank
  match c.lineBreak? with
  | some (b, c) =>
    let (more, c) ← quotedBreaks fuel c
    return (folded b more, c)
  | none => return (blanks, c)

/-- Between single quotes two of them stand for one. -/
def readSingle : Nat → Cursor → Option (List Char × Cursor)
  | 0, _ => none
  | fuel + 1, c =>
    match c.rest with
    | [] => none
    | '\'' :: '\'' :: _ => do
      let (s, c) ← readSingle fuel (c.advance 2)
      return ('\'' :: s, c)
    | '\'' :: _ => some ([], c.next)
    | x :: _ =>
      if endsWord (some x) then do
        let (spaces, c) ← quotedSpaces fuel c
        let (s, c) ← readSingle fuel c
        return (spaces ++ s, c)
      else do
        let (s, c) ← readSingle fuel c.next
        return (x :: s, c)

def escapes : List (Char × Char) :=
  [('0', '\x00'), ('a', '\x07'), ('b', '\x08'), ('t', '\t'), ('\t', '\t'), ('n', '\n'),
   ('v', '\x0b'), ('f', '\x0c'), ('r', '\r'), ('e', '\x1b'), (' ', ' '), ('"', '"'), ('/', '/'),
   ('\\', '\\'), ('N', '\u0085'), ('_', '\u00a0'), ('L', '\u2028'), ('P', '\u2029')]

def escapeWidth (c : Char) : Nat :=
  if c = 'x' then 2 else if c = 'u' then 4 else if c = 'U' then 8 else 0

/-- The value of a digit in bases up to 16; 16 for what is no digit. -/
def digitValue (c : Char) : Nat :=
  if c.isDigit then c.toNat - '0'.toNat
  else if 'a' ≤ c ∧ c ≤ 'f' then c.toNat - 'a'.toNat + 10
  else if 'A' ≤ c ∧ c ≤ 'F' then c.toNat - 'A'.toNat + 10
  else 16

def digitsIn? (base : Nat) (cs : List Char) : Option Nat :=
  if cs.isEmpty || cs.any fun c => base ≤ digitValue c then none
  else some (cs.foldl (fun n c => base * n + digitValue c) 0)

/-- What an escape stands for, read after its backslash. An escaped line break is nothing. -/
def readEscape (fuel : Nat) (c : Cursor) : Option (List Char × Cursor) := do
  match c.lineBreak? with
  | some (_, c) => quotedBreaks fuel c
  | none =>
    let mark ← c.peek
    match escapes.find? (·.1 == mark) with
    | some (_, x) => return ([x], c.next)
    | none =>
      let width := escapeWidth mark
      let digits := c.next.rest.take width
      let code ← digitsIn? 16 digits
      if digits.length = width ∧ code.isValidChar then
        return ([Char.ofNat code], c.next.advance width)
      else none

/-- Between double quotes a backslash escapes what follows it. -/
def readDouble : Nat → Cursor → Option (List Char × Cursor)
  | 0, _ => none
  | fuel + 1, c => do
    let x ← c.peek
    if x = '"' then return ([], c.next)
    let (taken, c) ←
      if x = '\\' then readEscape fuel c.next
      else if endsWord (some x) then quotedSpaces fuel c
      else some ([x], c.next)
    let (s, c) ← readDouble fuel c
    return (taken ++ s, c)

/-! ## Plain scalars -/

/-- How many characters of a plain scalar stand here without a blank between them. Inside brackets
the flow marks end it too. -/
def plainLength (inFlow : Bool) : List Char → Nat
  | [] => 0
  | x :: rest =>
    let isFlowMark (c : Char) : Bool := inFlow && ",[]\x7b\x7d".toList.contains c
    let endsKey := x = ':' ∧ (endsWord rest.head? || rest.head?.any isFlowMark)
    if endsWord (some x) ∨ endsKey ∨ isFlowMark x ∨ (inFlow ∧ x = '?') then 0
    else plainLength inFlow rest + 1

/-- The breaks of blank lines after a line of a plain scalar, or nothing if a document starts or
ends there. -/
def plainBreaks : Nat → Cursor → Option (List Char) × Cursor
  | 0, c => (none, c)
  | fuel + 1, c =>
    let c := c.skipSpaces
    match c.lineBreak? with
    | none => (some [], c)
    | some (b, c) =>
      if c.seesSeparator then (none, c)
      else
        let (more, c) := plainBreaks fuel c
        (more.map (b :: ·), c)

/-- The blanks or line breaks after a part of a plain scalar, if it may go on behind them, and
whether there was a break. -/
def plainSpaces (fuel : Nat) (c : Cursor) : List Char × Bool × Cursor :=
  let (spaces, c) := c.span (· == ' ')
  match c.lineBreak? with
  | none => (spaces, false, c)
  | some (b, c) =>
    if c.seesSeparator then ([], true, c)
    else
      match plainBreaks fuel c with
      | (some more, c) => (folded b more, true, c)
      | (none, c) => ([], true, c)

/-- A plain scalar after `spaces`, on lines that are indented enough. The flag tells whether the
cursor has passed a line break since. -/
def readPlain (inFlow : Bool) (indent : Int) :
    Nat → List Char → Bool → Cursor → List Char × Bool × Cursor
  | 0, _, broken, c => ([], broken, c)
  | fuel + 1, spaces, broken, c =>
    let length := plainLength inFlow c.rest
    if c.sees '#' ∨ length = 0 then ([], broken, c)
    else
      let part := spaces ++ c.rest.take length
      let (after, broken, c) := plainSpaces fuel (c.advance length)
      if after.isEmpty ∨ c.sees '#' ∨ (!inFlow ∧ (c.column : Int) < indent) then (part, broken, c)
      else
        let (more, broken, c) := readPlain inFlow indent fuel after broken c
        (part ++ more, broken, c)

/-! ## Block scalars -/

/-- What becomes of the line breaks at the end of a block scalar. -/
inductive Chomping where
  | strip
  | clip
  | keep
deriving DecidableEq

def chomping? : Option Char → Option Chomping
  | some '-' => some .strip
  | some '+' => some .keep
  | _ => none

def increment? : Option Char → Option Nat
  | some c => if c.isDigit ∧ c ≠ '0' then some (digitValue c) else none
  | none => none

/-- The header of a block scalar: chomping and indentation in either order, then the end of the
line. -/
def blockHeader (c : Cursor) : Option (Chomping × Option Nat × Cursor) := do
  let first := chomping? c.peek
  let c := if first.isSome then c.next else c
  let increment := increment? c.peek
  let c := if increment.isSome then c.next else c
  let second := if first.isNone ∧ increment.isSome then chomping? c.peek else none
  let c := if second.isSome then c.next else c
  if !endsField c.peek then none
  let c := c.skipSpaces.skipComment
  if !endsLine c.peek then none
  let c := (c.lineBreak?.map (·.2)).getD c
  return ((first.or second).getD .clip, increment, c)

/-- Blank lines before a block scalar, and the deepest column among them and the first line. -/
def blockIndentation : Nat → Nat → Cursor → List Char × Nat × Cursor
  | 0, deepest, c => ([], deepest, c)
  | fuel + 1, deepest, c =>
    let c := c.skipSpaces
    let deepest := max deepest c.column
    match c.lineBreak? with
    | some (b, c) =>
      let (more, deepest, c) := blockIndentation fuel deepest c
      (b :: more, deepest, c)
    | none => ([], deepest, c)

def skipTo (indent : Nat) (c : Cursor) : Cursor :=
  c.advance ((c.rest.take (indent - c.column)).takeWhile (· == ' ')).length

def blockBreaks (indent : Nat) : Nat → Cursor → List Char × Cursor
  | 0, c => ([], c)
  | fuel + 1, c =>
    let c := skipTo indent c
    match c.lineBreak? with
    | some (b, c) =>
      let (more, c) := blockBreaks indent fuel c
      (b :: more, c)
    | none => ([], c)

/-- The lines of a block scalar after the breaks of blank lines. Folding joins two lines that both
start with no blank. -/
def blockLines (isFolded : Bool) (chomping : Chomping) (indent : Nat) :
    Nat → List Char → Cursor → List Char × Cursor
  | 0, _, c => ([], c)
  | fuel + 1, breaks, c =>
    if c.column = indent ∧ c.peek.isSome then
      let startsBlank := c.peek.any isBlank
      let (line, c) := c.span (!isBreak ·)
      let (ending, c) := match c.lineBreak? with
        | some (b, c) => ([b], c)
        | none => ([], c)
      let (more, c) := blockBreaks indent fuel c
      if c.column = indent ∧ c.peek.isSome then
        let joins := isFolded && ending == ['\n'] && !startsBlank && !c.peek.any isBlank
        let joint := if joins then (if more.isEmpty then [' '] else []) else ending
        let (others, c) := blockLines isFolded chomping indent fuel more c
        (breaks ++ line ++ joint ++ others, c)
      else
        (breaks ++ line ++ (if chomping = .strip then [] else ending) ++
          (if chomping = .keep then more else []), c)
    else (if chomping = .keep then breaks else [], c)

/-- A block scalar after its mark, inside a block that is indented to `outer`. -/
def readBlockScalar (isFolded : Bool) (outer : Int) (c : Cursor) :
    Option (List Char × Cursor) := do
  let fuel := c.rest.length + 1
  let (chomping, increment, c) ← blockHeader c
  let least := (max (outer + 1) 1).toNat
  match increment with
  | some n =>
    let indent := least + n - 1
    let (breaks, c) := blockBreaks indent fuel c
    return blockLines isFolded chomping indent fuel breaks c
  | none =>
    let (breaks, deepest, c) := blockIndentation fuel 0 c
    return blockLines isFolded chomping (max least deepest) fuel breaks c

end FunctionStudy.Yaml
