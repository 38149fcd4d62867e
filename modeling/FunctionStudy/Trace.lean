import FunctionStudy.Points
import FunctionStudy.Ruffini.Table

/-! Derivation traces. Every step of a computation that a reader may want to see, in order. A step
is exported as a kind and a mapping of details; what becomes of it as text is decided in
`Trace.Rendering`. -/

namespace FunctionStudy

inductive Request where
  | solve (equation : String)
  | factor (expression : String)
  | study (function : String) (operations : List String)

/-- One row of a sign table: a piece, where it is positive, and its sign right of each column. -/
structure SignRow where
  piece : String
  inequality : String
  signs : List Int
deriving DecidableEq

def SignRow.toData (r : SignRow) : Data :=
  .record [("piece", .text r.piece), ("inequality", .text r.inequality),
    ("signs", .list (r.signs.map .int))]

/-- A polynomial beside its opposite and its reflection, and what comparing them shows. -/
structure ParityResult where
  function : String
  opposite : String
  reflected : String
  isEven : Bool
  isOdd : Bool
deriving DecidableEq

namespace ParityResult

def label (r : ParityResult) : String :=
  if r.isEven then "even" else if r.isOdd then "odd" else "neither"

def toData (r : ParityResult) : Data :=
  .record [("function", .text r.function), ("minus_f", .text r.opposite),
    ("f_of_minus_x", .text r.reflected), ("is_even", .bool r.isEven), ("is_odd", .bool r.isOdd),
    ("parity", .text r.label)]

end ParityResult

inductive Step where
  | inputs (request : Request)
  | equation (equation : String) (degree : Int) (axis : String)
  | linear (equation : String) (a b root : Binary64)
  | discriminant (equation : String) (a b c delta : Binary64)
  | roots (equation : String) (results : List Binary64) (factored : Option (List String))
  | impossible (equation : String) (reason : Option String)
  | identity (equation : String)
  | unfactorableEquation (equation reason : String)
  | unfactorablePolynomial (polynomial reason : String)
  | ruffiniCandidates (polynomial : String) (candidates : List Binary64)
  | ruffiniRoot (polynomial : String) (root : Binary64)
  | ruffiniTable (table : RuffiniTable)
  | ruffiniFactors (polynomial quotient divisor : String)
  | signIdentity
  | signPiece (piece positiveWhere : String)
  | signTable (breakpoints : List Binary64) (rows : List SignRow)
  | derivative (function derivative : String)
  | secondDerivative (derivative : String)
  | extremum (isMaximum : Bool) (x y : Binary64)
  | verticalIntersection (function : String) (point : Point)
  | parity (result : ParityResult)
  | area (primitive : String) (xs evaluations : List Binary64) (value : Binary64)
  | failure (isUserInput : Bool) (message : String)

/-- Whose fault a failure is, as written in results. -/
def faultName (isUserInput : Bool) : String := if isUserInput then "user_input" else "agent"

namespace Step

def kind : Step → String
  | .inputs _ => "inputs"
  | .equation .. => "equation"
  | .linear .. => "linear"
  | .discriminant .. => "discriminant"
  | .roots .. => "roots"
  | .impossible .. => "impossible"
  | .identity _ => "identity"
  | .unfactorableEquation .. | .unfactorablePolynomial .. => "unfactorable"
  | .ruffiniCandidates .. => "ruffini_candidates"
  | .ruffiniRoot .. => "ruffini_root"
  | .ruffiniTable _ => "ruffini_table"
  | .ruffiniFactors .. => "ruffini_factors"
  | .signIdentity => "sign_identity"
  | .signPiece .. => "sign_piece"
  | .signTable .. => "sign_table"
  | .derivative .. => "derivative"
  | .secondDerivative _ => "second_derivative"
  | .extremum .. => "extremum"
  | .verticalIntersection .. => "intersect_y"
  | .parity _ => "parity"
  | .area .. => "area"
  | .failure .. => "error"

/-- An entry that is left out when there is nothing to say. -/
def entry? (key : String) (value : Option Data) : List (String × Data) :=
  match value with
  | some d => [(key, d)]
  | none => []

def detail : Step → Data
  | .inputs (.solve e) => .record [("equation", .text e)]
  | .inputs (.factor e) => .record [("expression", .text e)]
  | .inputs (.study f operations) =>
    .record [("function", .text f), ("operations", .texts operations)]
  | .equation e degree axis =>
    .record [("equation", .text e), ("degree", .int degree), ("axis", .text axis)]
  | .linear e a b root =>
    .record [("equation", .text e), ("a", .float a), ("b", .float b), ("root", .float root)]
  | .discriminant e a b c delta =>
    .record [("equation", .text e), ("a", .float a), ("b", .float b), ("c", .float c),
      ("delta", .float delta)]
  | .roots e results factored =>
    .record ([("equation", .text e), ("results", .floats results)] ++
      entry? "factored" (factored.map .texts))
  | .impossible e reason => .record (("equation", .text e) :: entry? "reason" (reason.map .text))
  | .identity e => .record [("equation", .text e)]
  | .unfactorableEquation e reason => .record [("equation", .text e), ("reason", .text reason)]
  | .unfactorablePolynomial p reason => .record [("polynomial", .text p), ("reason", .text reason)]
  | .ruffiniCandidates p candidates =>
    .record [("polynomial", .text p), ("candidates", .floats candidates)]
  | .ruffiniRoot p root => .record [("polynomial", .text p), ("root", .float root)]
  | .ruffiniTable table => table.toData
  | .ruffiniFactors p quotient divisor =>
    .record [("polynomial", .text p), ("factors", .texts [quotient, divisor]),
      ("product", .text s!"({quotient})({divisor})")]
  | .signIdentity => .record [("polynomial", .text "0")]
  | .signPiece piece positiveWhere =>
    .record [("piece", .text piece), ("positive_where", .text positiveWhere)]
  | .signTable breakpoints rows =>
    .record [("breakpoints", .floats breakpoints), ("rows", .list (rows.map SignRow.toData))]
  | .derivative f derived => .record [("function", .text f), ("derivative", .text derived)]
  | .secondDerivative derived => .record [("second_derivative", .text derived)]
  | .extremum isMaximum x y =>
    .record [("kind", .text (if isMaximum then "max" else "min")), ("x", .float x), ("y", .float y)]
  | .verticalIntersection f point => .record [("function", .text f), ("point", point.toData)]
  | .parity result => result.toData
  | .area primitive xs evaluations value =>
    .record [("primitive", .text primitive), ("xs", .floats xs),
      ("evaluations", .floats evaluations), ("value", .float value)]
  | .failure isUserInput message =>
    .record [("kind", .text (faultName isUserInput)), ("message", .text message)]

end Step

structure Record where
  kind : String
  detail : Data

def Step.toRecord (s : Step) : Record := ⟨s.kind, s.detail⟩

def Record.toData (r : Record) : Data := .record [("kind", .text r.kind), ("detail", r.detail)]

end FunctionStudy
