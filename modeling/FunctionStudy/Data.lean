import FunctionStudy.Decimal.Shortest
import FunctionStudy.Text.Quoted
import FunctionStudy.Timestamp

/-! Data values. What worksheets are read from and what results are written as: scalars, lists and
mappings in the order of their keys. Whole and floating numbers are told apart. A tuple is a list of
fixed length and is written as one. -/

namespace FunctionStudy

inductive Data where
  | null
  | bool (b : Bool)
  | int (n : Int)
  | float (x : Binary64)
  | text (s : String)
  | timestamp (t : Timestamp)
  | list (items : List Data)
  | tuple (items : List Data)
  | map (entries : List (Data × Data))

namespace Data

def record (entries : List (String × Data)) : Data := .map (entries.map fun (k, d) => (.text k, d))

def isText (s : String) : Data → Bool
  | .text t => t == s
  | _ => false

/-- The value of a text as key; the last one if a key is repeated. -/
def get? (d : Data) (key : String) : Option Data :=
  match d with
  | .map entries => (entries.reverse.find? (·.1.isText key)).map (·.2)
  | _ => none

def get (d : Data) (key : String) : Data := (d.get? key).getD .null

/-- Sets a key; a new key goes last and a known one keeps its place. -/
def put {α : Type} (entries : List (String × α)) (key : String) (value : α) : List (String × α) :=
  if entries.any (·.1 == key) then
    entries.map fun e => if e.1 == key then (key, value) else e
  else entries ++ [(key, value)]

def rational? : Data → Option Rat
  | .bool b => some (if b then 1 else 0)
  | .int n => some n
  | .float x => x.toRat?
  | _ => none

/-- Whether two scalars are one key. Numbers and truth values are compared by value. -/
def sameKey (d e : Data) : Bool :=
  match d, e with
  | .null, .null => true
  | .text s, .text t => s == t
  | .timestamp s, .timestamp t => s == t
  | .float .nan, .float .nan => true
  | .float (.inf a), .float (.inf b) => a == b
  | d, e =>
    match d.rational?, e.rational? with
    | some v, some w => v = w
    | _, _ => false

def isKey : Data → Bool
  | .list _ | .tuple _ | .map _ => false
  | _ => true

/-- Sets a key of any kind, which keeps the form in which it came first. -/
def putEntry (entries : List (Data × Data)) (key value : Data) : List (Data × Data) :=
  if entries.any (·.1.sameKey key) then
    entries.map fun e => if e.1.sameKey key then (e.1, value) else e
  else entries ++ [(key, value)]

/-- Null, false, zeros and everything empty count as not given. -/
def isAbsent : Data → Bool
  | .null => true
  | .bool b => !b
  | .int n => n = 0
  | .float x => x.toRat? = some 0
  | .text s => s.isEmpty
  | .timestamp _ => false
  | .list items | .tuple items => items.isEmpty
  | .map entries => entries.isEmpty

def optional (x : Option Data) : Data := x.getD .null

def floats (xs : List Binary64) : Data := .list (xs.map .float)

def texts (xs : List String) : Data := .list (xs.map .text)

mutual

/-- How a value appears inside another one: texts are quoted. -/
def inner : Data → String
  | .null => "None"
  | .bool b => if b then "True" else "False"
  | .int n => toString n
  | .float x => Decimal.shortestText x
  | .text s => Text.quoted s
  | .timestamp t => t.inner
  | .list items => "[" ++ ", ".intercalate (innerItems items) ++ "]"
  | .tuple items =>
    match innerItems items with
    | [only] => "(" ++ only ++ ",)"
    | several => "(" ++ ", ".intercalate several ++ ")"
  | .map entries => "\x7b" ++ ", ".intercalate (innerEntries entries) ++ "\x7d"

def innerItems : List Data → List String
  | [] => []
  | d :: rest => d.inner :: innerItems rest

def innerEntries : List (Data × Data) → List String
  | [] => []
  | (key, d) :: rest => (key.inner ++ ": " ++ d.inner) :: innerEntries rest

end

/-- A value as a line of text: a text is itself. -/
def toText : Data → String
  | .text s => s
  | .timestamp t => t.text
  | d => d.inner

mutual

/-- The value with null for every number that is not finite, and lists for tuples. -/
def finiteOnly : Data → Data
  | .float x => if x.isFinite then .float x else .null
  | .list items => .list (finiteItems items)
  | .tuple items => .list (finiteItems items)
  | .map entries => .map (finiteEntries entries)
  | d => d

def finiteItems : List Data → List Data
  | [] => []
  | d :: rest => d.finiteOnly :: finiteItems rest

def finiteEntries : List (Data × Data) → List (Data × Data)
  | [] => []
  | (key, d) :: rest => (key, d.finiteOnly) :: finiteEntries rest

end

end Data
end FunctionStudy
