import FunctionStudy.Study
import FunctionStudy.Yaml

/-! Worksheets. A titled list of functions to study, read from data of any shape: what does not fit
is refused with the entry named. Scalars stand for their text where a text is needed. -/

namespace FunctionStudy

structure WorksheetEntry where
  id : String
  expression : String
  /-- The operations to run; none stands for the default ones. -/
  operations : Option (List String)
  areaPoints : List Binary64
  notes : String
deriving DecidableEq

structure Worksheet where
  title : String
  entries : List WorksheetEntry
deriving DecidableEq

namespace Data

/-- The name of the kind of a scalar that has no items. -/
def scalarKind? : Data → Option String
  | .null => some "NoneType"
  | .bool _ => some "bool"
  | .int _ => some "int"
  | .float _ => some "float"
  | .timestamp t => some t.kindName
  | _ => none

/-- The items one after the other: of a text its characters, of a mapping its keys. -/
def iterate : Data → List Data
  | .text s => s.toList.map fun c => .text c.toString
  | .list items | .tuple items => items
  | .map entries => entries.map (·.1)
  | _ => []

def asDouble? : Data → Except Error (Option Binary64)
  | .bool b => .ok (some (.ofInt (if b then 1 else 0)))
  | .int n => (Binary64.ofIntChecked n).map some
  | .float x => .ok (some x)
  | .text s => .ok (Decimal.readDouble? s)
  | _ => .ok none

mutual

/-- Whether an integer of more than 4300 digits stands in the value; such integers are not
written. -/
def hasLongInteger : Data → Bool
  | .int n => 4300 < Decimal.digitCount n.natAbs
  | .list items | .tuple items => anyLongInteger items
  | .map entries => anyLongEntry entries
  | _ => false

def anyLongInteger : List Data → Bool
  | [] => false
  | d :: rest => d.hasLongInteger || anyLongInteger rest

def anyLongEntry : List (Data × Data) → Bool
  | [] => false
  | (key, d) :: rest => key.hasLongInteger || d.hasLongInteger || anyLongEntry rest

end

/-- The line of text that a value stands for, if all its integers can be written. -/
def writtenText (d : Data) : Except Error String :=
  if d.hasLongInteger then .error (.conversion .integerTooLong) else .ok d.toText

end Data

namespace WorksheetEntry

/-- The id that an entry gives, or one made of its position, counted from 1. -/
def idOf (d : Data) (position : Nat) : Except Error String :=
  if (d.get "id").isAbsent then .ok s!"f{position}" else (d.get "id").writtenText

/-- The names of the operations; each must be that of an operation. -/
def operationsOf (id : String) : Data → Except Error (Option (List String))
  | .null => .ok none
  | d =>
    match d.scalarKind? with
    | some kind => .error (.notIterable kind)
    | none => do
      let names ← d.iterate.mapM Data.writtenText
      match names.filter fun name => (Operation.ofName? name).isNone with
      | [] => return some names
      | unknown => throw (.worksheet (.unknownOperations id unknown))

/-- The points for the area; nothing given means none. -/
def areaPointsOf (id : String) (d : Data) : Except Error (List Binary64) := do
  if d.isAbsent then return []
  if d.scalarKind?.isSome then throw (.worksheet (.areaPoints id))
  d.iterate.mapM fun item => do
    match ← item.asDouble? with
    | some x => return x
    | none => throw (.worksheet (.areaPoints id))

/-- The text of an optional key; a key that is there with null has the text of null. -/
def textOf (d : Data) (key : String) : Except Error String :=
  (d.get? key).elim (.ok "") Data.writtenText

/-- Reads one entry; its id must be new. -/
def ofData (taken : List String) (position : Nat) (d : Data) : Except Error WorksheetEntry := do
  match d.get? "expr" with
  | none => throw (.worksheet (.noExpression position))
  | some expression =>
    let id ← idOf d position
    if taken.contains id then throw (.worksheet (.duplicateId id))
    let operations ← operationsOf id (d.get "operations")
    let areaPoints ← areaPointsOf id (d.get "area_points")
    return ⟨id, ← expression.writtenText, operations, areaPoints, ← textOf d "notes"⟩

def toData (e : WorksheetEntry) : Data :=
  .record [("id", .text e.id), ("expr", .text e.expression),
    ("operations", .optional (e.operations.map .texts)), ("area_points", .floats e.areaPoints),
    ("notes", .text e.notes)]

def study (settings : Settings) (registry : Registry) (e : WorksheetEntry)
    (layout : Layout := .insertion) : Report × Registry :=
  reportStudy settings registry e.expression e.operations e.areaPoints layout

end WorksheetEntry

namespace Worksheet

def entriesOf (taken : List String) (position : Nat) :
    List Data → Except Error (List WorksheetEntry)
  | [] => .ok []
  | d :: rest => do
    let e ← WorksheetEntry.ofData taken position d
    return e :: (← entriesOf (e.id :: taken) (position + 1) rest)

def ofData (d : Data) : Except Error Worksheet := do
  match d with
  | .map _ =>
    match d.get "functions" with
    | .list (first :: rest) =>
      let entries ← entriesOf [] 1 (first :: rest)
      return ⟨← WorksheetEntry.textOf d "title", entries⟩
    | _ => throw (.worksheet .noFunctions)
  | _ => throw (.worksheet .notAMapping)

def ofYaml (text : String) : Except Error Worksheet :=
  Yaml.read text >>= ofData

/-- The report of each entry under its id, in order, and the registry after the last one. -/
def run (settings : Settings) (registry : Registry) (w : Worksheet)
    (layouts : WorksheetEntry → Layout := fun _ => .insertion) : List (String × Report) × Registry :=
  w.entries.foldl (fun (done, registry) e =>
    let (report, left) := e.study settings registry.reset (layouts e)
    (Data.put done e.id report, left)) ([], registry)

end Worksheet
end FunctionStudy
