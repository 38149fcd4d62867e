import FunctionStudy.Data
import FunctionStudy.Error
import FunctionStudy.Yaml.Node

/-! What scalars of YAML mean. A plain scalar is null, a truth value, a number or a timestamp if it
is written like one, and a text otherwise. -/

namespace FunctionStudy.Yaml

/-- The kinds of values. A merge key takes in the entries of its value. -/
inductive Kind where
  | null
  | bool
  | int
  | float
  | timestamp
  | merge
  | default
  | text
  | list
  | map
  /-- Named by a tag and unknown here. -/
  | other
deriving DecidableEq

def Kind.ofTag (tag : String) : Kind :=
  match tag with
  | "tag:yaml.org,2002:null" => .null
  | "tag:yaml.org,2002:bool" => .bool
  | "tag:yaml.org,2002:int" => .int
  | "tag:yaml.org,2002:float" => .float
  | "tag:yaml.org,2002:timestamp" => .timestamp
  | "tag:yaml.org,2002:merge" => .merge
  | "tag:yaml.org,2002:value" => .default
  | "tag:yaml.org,2002:str" => .text
  | "tag:yaml.org,2002:seq" => .list
  | "tag:yaml.org,2002:map" => .map
  | _ => .other

/-! ## How plain scalars are written -/

def nullWords : List String := ["", "~", "null", "Null", "NULL"]

def trueWords : List String :=
  ["yes", "Yes", "YES", "true", "True", "TRUE", "on", "On", "ON"]

def falseWords : List String :=
  ["no", "No", "NO", "false", "False", "FALSE", "off", "Off", "OFF"]

def isNumeral (base : Nat) (cs : List Char) : Bool :=
  !cs.isEmpty && cs.all fun c => c == '_' || digitValue c < base

/-- A numeral that starts with a digit from a range. -/
def startsWithDigit (least : Char) (cs : List Char) : Bool :=
  isNumeral 10 cs && cs.head?.any fun c => least ≤ c && c ≤ '9'

/-- A number below sixty, with one digit or two. -/
def isSixtieth : List Char → Bool
  | [c] => c.isDigit
  | [c, d] => '0' ≤ c && c ≤ '5' && d.isDigit
  | _ => false

/-- A numeral and numbers below sixty, with colons between them. -/
def isInSixties (least : Char) (cs : List Char) : Bool :=
  match cs.splitOn ':' with
  | first :: second :: more => startsWithDigit least first && (second :: more).all isSixtieth
  | _ => false

def writesInt (cs : List Char) : Bool :=
  match (Decimal.splitSign cs).2 with
  | '0' :: 'b' :: digits => isNumeral 2 digits
  | '0' :: 'x' :: digits => isNumeral 16 digits
  | ['0'] => true
  | '0' :: digits => isNumeral 8 digits
  | body => startsWithDigit '1' body || isInSixties '1' body

def isExponent : List Char → Bool
  | [] => true
  | mark :: sign :: digits =>
    (mark == 'e' || mark == 'E') && (sign == '+' || sign == '-') && !digits.isEmpty &&
      digits.all Char.isDigit
  | _ => false

def writesFloat (cs : List Char) : Bool :=
  let (_, body) := Decimal.splitSign cs
  let isDigit (c : Char) : Bool := c.isDigit || c == '_'
  if [".inf", ".Inf", ".INF"].contains (String.ofList body) then true
  else if [".nan", ".NaN", ".NAN"].contains (String.ofList cs) then true
  else
    let whole := body.takeWhile (· != '.')
    match body.dropWhile (· != '.') with
    | [] => false
    | _ :: places =>
      let scale := places.dropWhile isDigit
      if whole.isEmpty then
        -- without a digit before the point there is one right behind it and no sign
        cs.head? == some '.' && places.head?.any Char.isDigit && isExponent scale
      else startsWithDigit '0' whole && isExponent scale || isInSixties '0' whole && scale.isEmpty

/-- One digit or two, and what follows them. -/
def shortNumber? (cs : List Char) : Option (List Char × List Char) :=
  match cs with
  | c :: d :: rest =>
    if !c.isDigit then none else if d.isDigit then some ([c, d], rest) else some ([c], d :: rest)
  | [c] => if c.isDigit then some ([c], []) else none
  | [] => none

/-- Exactly so many digits, and what follows them. -/
def fixedNumber? (width : Nat) (cs : List Char) : Option (List Char × List Char) :=
  let digits := cs.take width
  if digits.length = width ∧ digits.all Char.isDigit then some (digits, cs.drop width) else none

def pass? (c : Char) : List Char → Option (List Char)
  | d :: rest => if c = d then some rest else none
  | [] => none

/-- A distance from universal time, after blanks; nothing means that there is none. -/
def offset? (cs : List Char) : Option (Option Int) := do
  if cs.isEmpty then return none
  match cs.dropWhile isBlank with
  | ['Z'] => return some 0
  | sign :: rest =>
    if sign ≠ '+' ∧ sign ≠ '-' then none
    let (hours, rest) ← shortNumber? rest
    let minutes ←
      if rest.isEmpty then some []
      else do
        let (minutes, rest) ← fixedNumber? 2 (← pass? ':' rest)
        if rest.isEmpty then some minutes else none
    let seconds : Int := 3600 * Text.digitsValue hours + 60 * Text.digitsValue minutes
    return some (if sign = '-' then -seconds else seconds)
  | [] => none

/-- A time of day; only millionths of a second count. -/
def clockTime? (cs : List Char) : Option ClockTime := do
  let (hour, rest) ← shortNumber? cs
  let (minute, rest) ← fixedNumber? 2 (← pass? ':' rest)
  let (second, rest) ← fixedNumber? 2 (← pass? ':' rest)
  let fraction := match rest with
    | '.' :: more => more.takeWhile Char.isDigit
    | _ => []
  let rest := match rest with
    | '.' :: more => more.dropWhile Char.isDigit
    | _ => rest
  let millionths := (fraction ++ List.replicate 6 '0').take 6
  return ⟨Text.digitsValue hour, Text.digitsValue minute, Text.digitsValue second,
    Text.digitsValue millionths, ← offset? rest⟩

/-- A day, and a time after it if there is one. Without a time, month and day have two digits. -/
def timestamp? (cs : List Char) : Option Timestamp := do
  let (year, rest) ← fixedNumber? 4 cs
  let (month, rest) ← shortNumber? (← pass? '-' rest)
  let (day, rest) ← shortNumber? (← pass? '-' rest)
  let time ← match rest with
    | [] => if month.length = 2 ∧ day.length = 2 then some none else none
    | 'T' :: rest | 't' :: rest => (clockTime? rest).map some
    | c :: rest => if isBlank c then (clockTime? (rest.dropWhile isBlank)).map some else none
  return ⟨Text.digitsValue year, Text.digitsValue month, Text.digitsValue day, time⟩

def Kind.ofPlain (text : String) : Kind :=
  let cs := text.toList
  if nullWords.contains text then .null
  else if trueWords.contains text || falseWords.contains text then .bool
  else if writesFloat cs then .float
  else if writesInt cs then .int
  else if (timestamp? cs).isSome then .timestamp
  else if text = "<<" then .merge
  else if text = "=" then .default
  else .text

/-! ## Values -/

def malformed {α : Type} : Except Error α := .error (.worksheet .invalidYaml)

def inBase (base : Nat) (digits : List Char) : Except Error Int :=
  match digitsIn? base digits with
  | some n => .ok n
  | none => .error (.conversion (.notAnInteger base (String.ofList digits)))

def intOf (text : String) : Except Error Int := do
  let (negative, body) := Decimal.splitSign (text.toList.filter (· != '_'))
  let size ← match body with
    | [] => malformed
    | ['0'] => pure 0
    | '0' :: 'b' :: digits => inBase 2 digits
    | '0' :: 'x' :: digits => inBase 16 digits
    | '0' :: _ => inBase 8 body
    | _ => do
      let parts ← (body.splitOn ':').mapM fun digits => Decimal.integer (String.ofList digits)
      pure (parts.foldl (fun n part => 60 * n + part) 0)
  return if negative then -size else size

def double (digits : List Char) : Except Error Binary64 :=
  match Decimal.readDouble? (String.ofList digits) with
  | some x => .ok x
  | none => .error (.conversion (.notADouble (String.ofList digits)))

/-- The sum of parts times powers of sixty, from the last part to the first. -/
def sixtiesSum (parts : List Binary64) : Except Error Binary64 :=
  parts.reverse.zipIdx.foldlM (fun sum (part, i) => do
    return sum.add (part.mul (← Binary64.ofIntChecked (Nat.pow 60 i : Nat)))) Binary64.zero

def floatOf (text : String) : Except Error Binary64 := do
  let cs := (text.toList.filter (· != '_')).map Char.toLower
  let (negative, body) := Decimal.splitSign cs
  let size ←
    if body.isEmpty then malformed
    else if body = ".inf".toList then pure (.inf false)
    else if body = ".nan".toList then pure .nan
    else if body.contains ':' then do sixtiesSum (← (body.splitOn ':').mapM double)
    else double body
  return if negative then size.neg else size

def scalarOf (kind : Kind) (text : String) : Except Error Data :=
  match kind with
  | .null => .ok .null
  | .bool =>
    let word := text.map Char.toLower
    if trueWords.contains word then .ok (.bool true)
    else if falseWords.contains word then .ok (.bool false)
    else malformed
  | .int => (intOf text).map .int
  | .float => (floatOf text).map .float
  | .timestamp =>
    match (timestamp? text.toList).map Timestamp.check with
    | some (.ok t) => .ok (.timestamp t)
    | some (.error e) => .error (.calendar e)
    | none => malformed
  | .text => .ok (.text text)
  | .merge | .default | .list | .map | .other => malformed

end FunctionStudy.Yaml
