import FunctionStudy.Study.Area
import FunctionStudy.Study.Parity
import FunctionStudy.Trace.Rendering

/-! Studying a function. The operations run one after the other, each giving a section. A failure
leaves a report too, which says whose fault it is and keeps the trace so far. -/

namespace FunctionStudy

inductive Operation where
  | intersections
  | slope
  | parity
  | positivity
  | monotonicity
  | concavity
  | derivative
  | primitive
  | area
deriving DecidableEq

namespace Operation

def all : List Operation :=
  [.intersections, .slope, .parity, .positivity, .monotonicity, .concavity, .derivative,
   .primitive, .area]

def name : Operation → String
  | .intersections => "intersections"
  | .slope => "slope"
  | .parity => "parity"
  | .positivity => "positivity"
  | .monotonicity => "monotonicity"
  | .concavity => "concavity"
  | .derivative => "derivative"
  | .primitive => "primitive"
  | .area => "area"

def ofName? (name : String) : Option Operation := all.find? fun op => op.name == name

/-- The operations of a list of names; the names that are none are refused together. -/
def ofNames (names : List String) : Except Error (List Operation) :=
  match names.filter fun name => (ofName? name).isNone with
  | [] => .ok (names.filterMap ofName?)
  | unknown => .error (.unknownOperations unknown)

end Operation

def Slope.toData (s : Slope) : Data :=
  .record [("value", .float s.value), ("radians", .float s.radians), ("degrees", .float s.degrees),
    ("is_acute", .bool s.isAcute), ("is_right", .bool s.isRight),
    ("is_obtuse", .bool s.isObtuse)]

def section? (settings : Settings) (f : Equation) (areaPoints : List Binary64) :
    Operation → Work Data
  | .intersections => do
    let x ← intersectAxis settings f "x"
    let y ← intersectAxis settings f "y"
    return .record [("x", x.toData), ("y", y.toData)]
  | .slope => return .optional (f.slope.map Slope.toData)
  | .parity => return (← parity f).toData
  | .positivity => return (← positivity settings f).toData
  | .monotonicity => return (← monotonicity settings f).toData
  | .concavity => return (← concavity settings f).toData
  | .derivative => do
    let derived ← Work.ofExcept (f.derive 1)
    return .record [("function", .text derived.text)]
  | .primitive => do
    let p ← Work.ofExcept f.primitive
    return .record [("function", .text (p.function.format true)), ("steps", .texts p.steps)]
  | .area => return (← area settings (.ok f) areaPoints).toData

/-- The sections by name; a repeated operation runs again and replaces its section. -/
def sections (settings : Settings) (f : Equation) (areaPoints : List Binary64)
    (operations : List Operation) : Work (List (String × Data)) :=
  operations.foldlM (fun done op => do
    return Data.put done op.name (← section? settings f areaPoints op)) []

/-- What a caller gets, whether or not the computation succeeded. -/
structure Report where
  function : Option String
  /-- The sections, or the error. -/
  outcome : Except Error (List (String × Data))
  points : List Point
  steps : List Step
  isLatex : Bool

namespace Report

def ok (r : Report) : Bool :=
  match r.outcome with
  | .ok _ => true
  | .error _ => false

def sections (r : Report) : List (String × Data) :=
  match r.outcome with
  | .ok sections => sections
  | .error _ => []

def error? (r : Report) : Option Error :=
  match r.outcome with
  | .ok _ => none
  | .error e => some e

/-- The whole report, with every number as it was computed. -/
def entries (r : Report) : List (String × Data) :=
  [("ok", .bool r.ok), ("function", .optional (r.function.map .text)),
    ("sections", .record r.sections), ("points", .list (r.points.map Point.toData)),
    ("steps", .texts (renderTrace r.isLatex r.steps)),
    ("full_trace", .list (r.steps.map fun s => s.toRecord.toData)),
    ("error", .optional (r.error?.map fun e => .text e.message)),
    ("error_kind", .optional (r.error?.map fun e => .text (faultName e.isUserInput)))]

/-- The report as data that any JSON reader accepts: numbers that are not finite become null. -/
def toData (r : Report) : Data := (Data.record r.entries).finiteOnly

end Report

/-- Reads an equation and works on it, on a registry; gives the report and the registry after. -/
def reportOn (settings : Settings) (registry : Registry) (text : String)
    (work : Equation → Work (List (String × Data))) (check : Except Error Unit)
    (layout : Layout := .insertion) : Report × Registry :=
  let f := check >>= fun _ => Equation.ofText text
  let (outcome, notebook) := (Work.ofExcept f >>= work).runFrom ⟨[], some registry⟩ layout
  let registry := notebook.registry.getD registry
  let ending := match outcome with
    | .ok _ => []
    | .error e => [Step.failure e.isUserInput e.message]
  (⟨f.toOption.map (·.text), outcome, registry.points, notebook.steps ++ ending, settings.isLatex⟩,
    registry)

def reportSolution (settings : Settings) (registry : Registry) (equation : String)
    (layout : Layout := .insertion) : Report × Registry :=
  reportOn settings registry equation (fun f => do
    Work.record (.inputs (.solve f.text))
    return [("solution", (← solve settings "y=0" 0 f none).toData)]) (.ok ()) layout

def reportFactorization (settings : Settings) (registry : Registry) (expression : String)
    (layout : Layout := .insertion) : Report × Registry :=
  reportOn settings registry expression (fun f => do
    Work.record (.inputs (.factor f.text))
    let result ← factor settings f
    let grid := result.split.map fun s => ("table_text", Data.text (s.table.render false))
    return [("factorization", .record (result.entries ++ grid.toList))]) (.ok ()) layout

/-- Without a list every operation runs, but the area only when there are points for it. -/
def defaultOperations (areaPoints : List Binary64) : List Operation :=
  if areaPoints.isEmpty then Operation.all.filter (· ≠ .area) else Operation.all

def reportStudy (settings : Settings) (registry : Registry) (expression : String)
    (operations : Option (List String)) (areaPoints : List Binary64)
    (layout : Layout := .insertion) : Report × Registry :=
  let chosen := match operations with
    | none => .ok (defaultOperations areaPoints)
    | some names => Operation.ofNames names
  reportOn settings registry expression (fun f => do
    let ops ← Work.ofExcept chosen
    Work.record (.inputs (.study f.text (ops.map Operation.name)))
    sections settings f areaPoints ops) (chosen.map fun _ => ()) layout

end FunctionStudy
