import FunctionStudy.Yaml.Text

/-! Tokens of YAML. Indentation becomes tokens: a block starts where something stands deeper than
the blocks around it and ends where a line stands less deep. -/

namespace FunctionStudy.Yaml

inductive Directive where
  | version (major : Nat)
  | handle (name tag : String)
  | other
deriving DecidableEq

inductive Token where
  | directive (d : Directive)
  | documentStart
  | documentEnd
  | streamEnd
  | blockSequenceStart
  | blockMappingStart
  | blockEnd
  | flowSequenceStart
  | flowSequenceEnd
  | flowMappingStart
  | flowMappingEnd
  | blockEntry
  | flowEntry
  | key
  | value
  | alias (name : String)
  | anchor (name : String)
  | tag (handle : Option String) (suffix : String)
  | scalar (text : String) (isPlain : Bool)
deriving DecidableEq

/-! ## Names -/

def isNameChar (c : Char) : Bool := c.isAlphanum || c == '-' || c == '_'

def isUriChar (c : Char) : Bool := isNameChar c || ";/?:@&=+$,.!~*'()[]".toList.contains c

def anchorName? (c : Cursor) : Option (String × Cursor) :=
  let (name, c) := c.next.span isNameChar
  let ends := endsWord c.peek || c.peek.any fun x => "?:,]\x7d%@`".toList.contains x
  if name.isEmpty || !ends then none else some (String.ofList name, c)

/-- A tag handle: an exclamation mark, or a name between two. -/
def tagHandle? (c : Cursor) : Option (String × Cursor) :=
  if !c.sees '!' then none
  else
    let (name, after) := c.next.span isNameChar
    if after.sees '!' then some ("!" ++ String.ofList name ++ "!", after.next)
    else if name.isEmpty && c.next.sees ' ' then some ("!", c.next)
    else none

/-- The rest of a tag, which may not be empty. -/
def tagSuffix? (c : Cursor) : Option (String × Cursor) :=
  let (suffix, c) := c.span isUriChar
  if suffix.isEmpty then none else some (String.ofList suffix, c)

/-- A tag: a whole name between angle brackets, a lone mark, or a suffix after a handle. -/
def tagToken? (c : Cursor) : Option (Token × Cursor) := do
  let (token, c) ←
    if c.peekAt 1 = some '<' then do
      let (suffix, c) ← tagSuffix? (c.advance 2)
      if c.sees '>' then some (Token.tag none suffix, c.next) else none
    else if endsWord (c.peekAt 1) then some (Token.tag none "!", c.next)
    else do
      let word := c.next.rest.takeWhile fun x => !endsField (some x)
      let (handle, c) ← if word.contains '!' then tagHandle? c else some ("!", c.next)
      let (suffix, c) ← tagSuffix? c
      return (Token.tag (some handle) suffix, c)
  if endsField c.peek then return (token, c) else none

def directiveEnd? (c : Cursor) : Option Cursor :=
  let c := c.skipSpaces.skipComment
  if endsLine c.peek then some ((c.lineBreak?.map (·.2)).getD c) else none

def versionDirective? (c : Cursor) : Option (Directive × Cursor) := do
  let (major, c) := c.skipSpaces.span Char.isDigit
  if !c.sees '.' then none
  let (minor, c) := c.next.span Char.isDigit
  if minor.isEmpty || !endsField c.peek then none
  return (.version (← digitsIn? 10 major), c)

def handleDirective? (c : Cursor) : Option (Directive × Cursor) := do
  let (name, c) ← tagHandle? c.skipSpaces
  if !c.sees ' ' then none
  let (tag, c) ← tagSuffix? c.skipSpaces
  if endsField c.peek then return (.handle name tag, c) else none

def directiveToken? (c : Cursor) : Option (Token × Cursor) := do
  let (name, c) := c.next.span isNameChar
  if name.isEmpty || !endsField c.peek then none
  let (directive, c) ←
    if name = "YAML".toList then versionDirective? c
    else if name = "TAG".toList then handleDirective? c
    else some (.other, c.skip (!isBreak ·))
  return (.directive directive, ← directiveEnd? c)

/-! ## The state of a scan -/

/-- A place where a key may turn out to have stood. -/
structure KeyPlace where
  /-- How many tokens stand before it. -/
  position : Nat
  /-- A block goes on here, so that nothing but a key is possible. -/
  isRequired : Bool
  index : Nat
  line : Nat
  column : Nat

structure Scan where
  cursor : Cursor
  /-- The tokens so far, newest first. -/
  tokens : List Token
  /-- How many brackets are open. -/
  depth : Nat
  /-- The column of the innermost block, -1 outside of all. -/
  indent : Int
  /-- The columns of the blocks around it, innermost first. -/
  outer : List Int
  keyAllowed : Bool
  /-- The place kept at each depth. -/
  places : List (Nat × KeyPlace)

namespace Scan

def start (text : List Char) : Scan :=
  let cursor := Cursor.start text
  { cursor := if cursor.sees '\ufeff' then cursor.next else cursor
    tokens := [], depth := 0, indent := -1, outer := [], keyAllowed := true, places := [] }

def inFlow (s : Scan) : Bool := 0 < s.depth

def column (s : Scan) : Int := s.cursor.column

def push (s : Scan) (t : Token) : Scan := { s with tokens := t :: s.tokens }

/-- Closes the blocks that are deeper than a column. -/
def closeBlocks (column indent : Int) (tokens : List Token) : List Int → Int × List Int × List Token
  | [] => (indent, [], tokens)
  | next :: outer =>
    if column < indent then closeBlocks column next (.blockEnd :: tokens) outer
    else (indent, next :: outer, tokens)

/-- Ends the blocks that are deeper than a column. Brackets ignore indentation. -/
def unwind (s : Scan) (column : Int) : Scan :=
  if s.inFlow then s
  else
    let (indent, outer, tokens) := closeBlocks column s.indent s.tokens s.outer
    { s with indent, outer, tokens }

/-- Opens a block at a column, and tells whether that is deeper than the blocks so far. -/
def deepen (s : Scan) (column : Int) : Bool × Scan :=
  if s.indent < column then
    (true, { s with indent := column, outer := s.indent :: s.outer })
  else (false, s)

/-- Opens a block where the cursor is, with its token if it is deeper. Brackets need no blocks. -/
def openBlock (s : Scan) (t : Token) : Scan :=
  if s.inFlow then s
  else
    let (isNew, s) := s.deepen s.column
    if isNew then s.push t else s

/-- Gives up the places that can no longer be keys: a key ends on its line, within 1024
characters. A required one must not be given up. -/
def dropStale (s : Scan) : Option Scan :=
  let isStale (p : KeyPlace) : Bool := p.line ≠ s.cursor.line || 1024 < s.cursor.index - p.index
  if s.places.any fun (_, p) => isStale p && p.isRequired then none
  else some { s with places := s.places.filter fun (_, p) => !isStale p }

def dropPlace (s : Scan) : Option Scan :=
  if s.places.any fun (depth, p) => depth == s.depth && p.isRequired then none
  else some { s with places := s.places.filter fun (depth, _) => depth != s.depth }

/-- Keeps this place for a key, where one is allowed. -/
def keepPlace (s : Scan) : Option Scan := do
  if !s.keyAllowed then return s
  let isRequired := !s.inFlow && s.indent == s.column
  let s ← s.dropPlace
  let place : KeyPlace :=
    ⟨s.tokens.length, isRequired, s.cursor.index, s.cursor.line, s.cursor.column⟩
  return { s with places := (s.depth, place) :: s.places }

/-- Passes blanks, comments and line breaks. Outside brackets a key is allowed on a new line. -/
def skipToToken : Nat → Scan → Scan
  | 0, s => s
  | fuel + 1, s =>
    let c := s.cursor.skipSpaces.skipComment
    match c.lineBreak? with
    | some (_, cursor) =>
      skipToToken fuel { s with cursor, keyAllowed := s.keyAllowed || !s.inFlow }
    | none => { s with cursor := c }

/-! ## One token -/

/-- The mark of a directive or of a document, which ends all blocks. -/
def outsideBlocks (s : Scan) : Option Scan := do
  let s ← (s.unwind (-1)).dropPlace
  return { s with keyAllowed := false }

def scanDocumentMark (s : Scan) (t : Token) : Option Scan := do
  let s ← s.outsideBlocks
  return { s.push t with cursor := s.cursor.advance 3 }

def scanDirective (s : Scan) : Option Scan := do
  let s ← s.outsideBlocks
  let (t, cursor) ← directiveToken? s.cursor
  return { s.push t with cursor }

def scanStreamEnd (s : Scan) : Option Scan := do
  let s ← s.outsideBlocks
  return { s.push .streamEnd with places := [] }

def scanOpening (s : Scan) (t : Token) : Option Scan := do
  let s ← s.keepPlace
  return { s.push t with depth := s.depth + 1, keyAllowed := true, cursor := s.cursor.next }

def scanClosing (s : Scan) (t : Token) : Option Scan := do
  let s ← s.dropPlace
  if s.depth = 0 then none
  return { s.push t with depth := s.depth - 1, keyAllowed := false, cursor := s.cursor.next }

def scanFlowEntry (s : Scan) : Option Scan := do
  let s ← s.dropPlace
  return { s.push .flowEntry with keyAllowed := true, cursor := s.cursor.next }

def scanBlockEntry (s : Scan) : Option Scan := do
  if !s.inFlow && !s.keyAllowed then none
  let s ← (s.openBlock .blockSequenceStart).dropPlace
  return { s.push .blockEntry with keyAllowed := true, cursor := s.cursor.next }

def scanKey (s : Scan) : Option Scan := do
  if !s.inFlow && !s.keyAllowed then none
  let s ← (s.openBlock .blockMappingStart).dropPlace
  return { s.push .key with keyAllowed := !s.inFlow, cursor := s.cursor.next }

/-- Puts the key token, and the start of its mapping if that is new, at a place. -/
def insertKey (s : Scan) (p : KeyPlace) : Scan :=
  let newer := s.tokens.take (s.tokens.length - p.position)
  let older := s.tokens.drop (s.tokens.length - p.position)
  let (isNew, s) := if s.inFlow then (false, s) else s.deepen p.column
  { s with tokens := newer ++ .key :: if isNew then .blockMappingStart :: older else older }

/-- A value mark: what stood at the place kept at this depth was a key. -/
def scanValue (s : Scan) : Option Scan := do
  let s ← match s.places.find? (·.1 == s.depth) with
    | some (_, p) =>
      let s := s.insertKey p
      some { s with places := s.places.filter (·.1 != s.depth), keyAllowed := false }
    | none => do
      if !s.inFlow && !s.keyAllowed then none
      let s := s.openBlock .blockMappingStart
      { s with keyAllowed := !s.inFlow }.dropPlace
  return { s.push .value with cursor := s.cursor.next }

/-- What a key may start with: it keeps a place, and no key follows it on the line. -/
def scanContent (s : Scan) (read : Cursor → Option (Token × Cursor)) : Option Scan := do
  let s ← s.keepPlace
  let (t, cursor) ← read s.cursor
  return { s.push t with keyAllowed := false, cursor }

def scanQuoted (s : Scan) (read : Nat → Cursor → Option (List Char × Cursor)) : Option Scan :=
  s.scanContent fun c => do
    let (text, c) ← read (c.rest.length + 1) c.next
    return (.scalar (String.ofList text) false, c)

/-- A plain scalar; a key is allowed behind it if it ends at the start of a line. -/
def scanPlain (s : Scan) : Option Scan := do
  let s ← s.keepPlace
  let (text, broken, cursor) :=
    readPlain s.inFlow (s.indent + 1) (s.cursor.rest.length + 1) [] false s.cursor
  return { s.push (.scalar (String.ofList text) true) with keyAllowed := broken, cursor }

def scanBlockScalar (s : Scan) (isFolded : Bool) : Option Scan := do
  let s ← s.dropPlace
  let (text, cursor) ← readBlockScalar isFolded s.indent s.cursor.next
  return { s.push (.scalar (String.ofList text) false) with keyAllowed := true, cursor }

/-- Marks that no plain scalar starts with. -/
def isIndicator (c : Char) : Bool := "-?:,[]\x7b\x7d#&*!|>'\"%@`".toList.contains c

/-- Whether a plain scalar starts here. A dash or, outside brackets, a question mark or colon may
start one if no blank follows. -/
def startsPlain (s : Scan) (x : Char) : Bool :=
  !(isIndicator x || endsWord (some x)) ||
    !endsWord (s.cursor.peekAt 1) && (x == '-' || !s.inFlow && (x == '?' || x == ':'))

def scanToken (s : Scan) : Option Scan :=
  let c := s.cursor
  let beforeBlank := endsWord (c.peekAt 1)
  match c.peek with
  | none => s.scanStreamEnd
  | some x =>
    if x = '%' ∧ c.column = 0 then s.scanDirective
    else if c.column = 0 ∧ c.seesMarker '-' then s.scanDocumentMark .documentStart
    else if c.column = 0 ∧ c.seesMarker '.' then s.scanDocumentMark .documentEnd
    else if x = '[' then s.scanOpening .flowSequenceStart
    else if x = '\x7b' then s.scanOpening .flowMappingStart
    else if x = ']' then s.scanClosing .flowSequenceEnd
    else if x = '\x7d' then s.scanClosing .flowMappingEnd
    else if x = ',' then s.scanFlowEntry
    else if x = '-' ∧ beforeBlank then s.scanBlockEntry
    else if x = '?' ∧ (s.inFlow ∨ beforeBlank) then s.scanKey
    else if x = ':' ∧ (s.inFlow ∨ beforeBlank) then s.scanValue
    else if x = '*' then
      s.scanContent fun c => (anchorName? c).map fun (name, c) => (.alias name, c)
    else if x = '&' then
      s.scanContent fun c => (anchorName? c).map fun (name, c) => (.anchor name, c)
    else if x = '!' then s.scanContent tagToken?
    else if x = '|' ∧ !s.inFlow then s.scanBlockScalar false
    else if x = '>' ∧ !s.inFlow then s.scanBlockScalar true
    else if x = '\'' then s.scanQuoted readSingle
    else if x = '"' then s.scanQuoted readDouble
    else if s.startsPlain x then s.scanPlain
    else none

/-- Reads tokens up to the end; every one but the last takes a character at least. -/
def run : Nat → Scan → Option (List Token)
  | 0, _ => none
  | fuel + 1, s => do
    let s ← (skipToToken (s.cursor.rest.length + 1) s).dropStale
    let s ← (s.unwind s.column).scanToken
    if s.tokens.head? = some .streamEnd then return s.tokens.reverse else run fuel s

end Scan

def tokens? (text : String) : Option (List Token) :=
  let cs := text.toList
  if cs.all isAllowed then (Scan.start cs).run (cs.length + 1) else none

end FunctionStudy.Yaml
