import FunctionStudy.Settings
import FunctionStudy.Decimal
import FunctionStudy.Text.Case

/-! Settings from the environment. Settings are read from variables; a file of `KEY=VALUE` lines
supplies those that are not set. A variable that is not set at all leaves the default. -/

namespace FunctionStudy.Settings

/-! ## Reading the file -/

/-- Reads from the text that is left. A failure leaves the text where it was met. -/
abbrev FileReader := ExceptT Unit (StateM (List Char))

/-- A blank that does not end the line. -/
def isInlineBlank (c : Char) : Bool := Text.isBlank c && c != '\n' && c != '\r'

namespace FileReader

def skip (p : Char → Bool) : FileReader (List Char) :=
  modifyGet fun cs => (cs.takeWhile p, cs.dropWhile p)

def fail {α : Type} : FileReader α := throw ()

/-- The word `export` before a name; it must be followed by a blank. -/
def skipExport : FileReader Unit := do
  let cs ← get
  if cs.take 6 = "export".toList ∧ (cs.drop 6).head?.any isInlineBlank then
    set (cs.drop 6)
    let _ ← skip isInlineBlank

/-- The name that a line starts with, in single quotes or not; a comment has none. -/
def key : FileReader (Option String) := do
  match ← get with
  | '#' :: _ => return none
  | '\'' :: rest =>
    let name := rest.takeWhile (· != '\'')
    match rest.dropWhile (· != '\'') with
    | _ :: after =>
      if name.isEmpty then fail
      set after
      return some (String.ofList name)
    | [] => fail
  | _ =>
    let name ← skip fun c => c != '=' && c != '#' && !Text.isBlank c
    if name.isEmpty then fail
    return some (String.ofList name)

/-- The text up to the closing quote. A quote after a backslash closes only if no later one can. -/
def untilQuote (quote : Char) : List Char → Option (List Char × List Char)
  | [] => none
  | '\\' :: c :: rest =>
    if c = quote then
      match untilQuote quote rest with
      | some (value, after) => some ('\\' :: quote :: value, after)
      | none => some (['\\'], rest)
    else (untilQuote quote (c :: rest)).map fun (value, after) => ('\\' :: value, after)
  | c :: rest =>
    if c = quote then some ([], rest)
    else (untilQuote quote rest).map fun (value, after) => (c :: value, after)

/-- What a backslash and a letter stand for. Single quotes know only the escapes of themselves and
of the backslash. -/
def escapes (quote : Char) : List (Char × Char) :=
  let both := [('\\', '\\'), ('\'', '\'')]
  if quote = '\'' then both
  else both ++ [('"', '"'), ('a', '\x07'), ('b', '\x08'), ('f', '\x0c'), ('n', '\n'), ('r', '\r'),
    ('t', '\t'), ('v', '\x0b')]

def unescape (quote : Char) : List Char → List Char
  | '\\' :: c :: rest =>
    match (escapes quote).lookup c with
    | some meant => meant :: unescape quote rest
    | none => '\\' :: unescape quote (c :: rest)
  | c :: rest => c :: unescape quote rest
  | [] => []

/-- The text before a comment; a mark that no blank stands before starts none. -/
def beforeComment : List Char → List Char
  | c :: '#' :: rest => if Text.isBlank c then [] else c :: beforeComment ('#' :: rest)
  | c :: rest => c :: beforeComment rest
  | [] => []

/-- A value after its equals sign. In quotes it may go over several lines. -/
def value : FileReader String := do
  let cs ← get
  let isQuoted := cs.head? = some '\'' ∨ cs.head? = some '"'
  match cs with
  | quote :: rest =>
    if isQuoted then
      match untilQuote quote rest with
      | some (raw, after) =>
        set after
        return String.ofList (unescape quote raw)
      | none => fail
    else
      let line ← skip fun c => c != '\n' && c != '\r'
      let kept := beforeComment line
      return String.ofList (kept.reverse.dropWhile Text.isBlank).reverse
  | [] => return ""

/-- What may follow a value on its line: blanks and a comment. -/
def lineEnd : FileReader Unit := do
  let _ ← skip isInlineBlank
  if (← get).head? = some '#' then
    let _ ← skip (· != '\n')
  match ← get with
  | '\n' :: rest => set rest
  | [] => return ()
  | _ => fail

/-- One line, or several if a quoted value goes over them: the name it sets and the value, each if
there is one. -/
def binding : FileReader (Option String × Option String) := do
  let _ ← skip Text.isBlank
  if (← get).isEmpty then return (none, none)
  skipExport
  let name ← key
  let _ ← skip isInlineBlank
  let given ← match ← get with
    | '=' :: rest => do
      set rest
      let _ ← skip isInlineBlank
      pure (some (← value))
    | _ => pure none
  lineEnd
  return (name, given)

end FileReader

/-- The bindings of a file; after a malformed one reading goes on with the next line. -/
def bindings : Nat → List Char → List (String × Option String)
  | 0, _ | _, [] => []
  | fuel + 1, cs =>
    match Id.run (StateT.run (ExceptT.run FileReader.binding) cs) with
    | (.ok (some name, value), rest) => (name, value) :: bindings fuel rest
    | (.ok (none, _), rest) => bindings fuel rest
    | (.error _, rest) => bindings fuel ((rest.dropWhile (· != '\n')).drop 1)

def unixLines : List Char → List Char
  | '\r' :: '\n' :: rest => '\n' :: unixLines rest
  | '\r' :: rest => '\n' :: unixLines rest
  | c :: rest => c :: unixLines rest
  | [] => []

/-! ## Variables inside values -/

/-- A reference `${name}` or `${name:-default}` after its first two characters, and the rest. -/
def reference? (cs : List Char) : Option (String × String × List Char) :=
  let name := cs.takeWhile fun c => c != '\x7d' && c != ':'
  match cs.drop name.length with
  | '\x7d' :: rest => some (String.ofList name, "", rest)
  | ':' :: '-' :: more =>
    let default := more.takeWhile (· != '\x7d')
    match more.drop default.length with
    | _ :: rest => some (String.ofList name, String.ofList default, rest)
    | [] => none
  | _ => none

/-- A value with the values of the variables that it refers to. -/
def expand (value : String → Option String) : Nat → List Char → List Char
  | 0, cs => cs
  | _, [] => []
  | fuel + 1, '$' :: '\x7b' :: rest =>
    match reference? rest with
    | some (name, default, after) => ((value name).getD default).toList ++ expand value fuel after
    | none => '$' :: expand value fuel ('\x7b' :: rest)
  | fuel + 1, c :: rest => c :: expand value fuel rest

/-- The variables that bindings set, one after the other. A value may refer to the environment and
to those set before it; a name without a value loses the one it had. -/
def resolve (environment : List (String × String)) (bs : List (String × Option String)) :
    List (String × Option String) :=
  bs.foldl (fun done (name, given) =>
    let known (key : String) : Option String :=
      match environment.lookup key with
      | some value => some value
      | none => (done.lookup key).map (·.getD "")
    let value := given.map fun text =>
      String.ofList (expand known (text.length + 1) text.toList)
    (name, value) :: done) []

def fileEntries (environment : List (String × String)) (text : String) :
    List (String × Option String) :=
  resolve environment (bindings (text.length + 1) (unixLines text.toList))

/-! ## Settings -/

/-- The value of a variable: the environment's, else the last one of the file. -/
def lookup (environment : List (String × String)) (file : List (String × Option String))
    (key : String) : Option String :=
  match environment.lookup key with
  | some value => some value
  | none => (file.lookup key).getD none

def readInt (value : Option String) (default : Int) : Except Error Int :=
  match value with
  | none => .ok default
  | some text => Decimal.integer text

def readDouble (value : Option String) (default : Binary64) : Except Error Binary64 :=
  match value with
  | none => .ok default
  | some text =>
    match Decimal.readDouble? text with
    | some x => .ok x
    | none => .error (.conversion (.notADouble text))

def ofEnvironment (environment : List (String × String)) (file : String) :
    Except Error Settings := do
  let value := lookup environment (fileEntries environment file)
  let traceFormat := Text.lower ((value "MATHSOLVER_TRACE_FORMAT").getD defaults.traceFormat)
  if traceFormat ≠ "text" ∧ traceFormat ≠ "latex" then throw (.traceFormat traceFormat)
  return {
    traceFormat
    maxDepth := ← readInt (value "MATHSOLVER_MAX_DEPTH") defaults.maxDepth
    maxDegree := ← readInt (value "MATHSOLVER_MAX_DEGREE") defaults.maxDegree
    maxDivisor := ← readInt (value "MATHSOLVER_MAX_DIVISOR") defaults.maxDivisor
    zeroTolerance := ← readDouble (value "MATHSOLVER_ZERO_TOLERANCE") defaults.zeroTolerance
    logLevel := Text.upper ((value "MATHSOLVER_LOG_LEVEL").getD defaults.logLevel)
    worksheetPath := (value "WORKSHEET_PATH").filter (!·.isEmpty) }

end FunctionStudy.Settings
