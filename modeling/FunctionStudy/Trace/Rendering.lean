import FunctionStudy.Decimal.Display
import FunctionStudy.Trace

/-! Traces as text. Exported steps become lines of plain text or LaTeX; steps without a
reader-facing form give none. Rendering reads records, not steps, so it also takes traces that were
stored and may have gaps. -/

namespace FunctionStudy

namespace Data

/-- The number in a detail; what is missing or no number gives none. -/
def number? : Data → Option Binary64
  | .int n => some (.ofInt n)
  | .float x => some x
  | .bool b => some (.ofInt (if b then 1 else 0))
  | _ => none

def items : Data → List Data
  | .list items | .tuple items => items
  | _ => []

end Data

def showNumber (latex : Bool) (d : Data) : String := Decimal.displayOptional latex d.number?

def alignRight (width : Nat) (s : String) : String :=
  String.ofList (List.replicate (width - s.length) ' ') ++ s

def renderRuffiniTable (latex : Bool) (coefficients products sums : List Data) (root : Data) :
    String :=
  let cells := List.map (showNumber latex)
  let top := cells coefficients
  let middle := "" :: cells products
  let bottom := cells sums
  let label := showNumber latex root
  if latex then
    let header := "c|" ++ String.ofList (List.replicate top.length 'r')
    let row (first : String) (cs : List String) := first ++ " & " ++ " & ".intercalate cs
    let rows := [row "" top, row label middle, row "" bottom]
    "\\begin\x7barray\x7d\x7b" ++ header ++ "\x7d" ++ " \\\\ ".intercalate rows ++
      "\\end\x7barray\x7d"
  else
    let width := ((label :: top ++ middle ++ bottom).map String.length).foldl max 0
    let left := max label.length 1
    let row (cs : List String) := " ".intercalate (cs.map (alignRight width))
    "\n".intercalate [alignRight left "" ++ " | " ++ row top,
      alignRight left label ++ " | " ++ row middle, alignRight left "" ++ " | " ++ row bottom]

def RuffiniTable.render (latex : Bool) (t : RuffiniTable) : String :=
  renderRuffiniTable latex (t.coefficients.map .float) (t.products.map .float) (t.sums.map .float)
    (.float t.root)

def renderSignRow (row : Data) : String :=
  let piece := (row.get "piece").toText
  let marks := (row.get "signs").items.map fun s =>
    if (s.number?.map (·.isPositive)).getD false then "+" else "-"
  (if piece = "product" then "f" else piece) ++ ": " ++ " ".intercalate marks

def renderSignTable (latex : Bool) (breakpoints rows : List Data) : String :=
  let columns := Decimal.displayText latex (.inf true) :: breakpoints.map (showNumber latex)
  "\n".intercalate (("sign right of: " ++ " ".intercalate columns) :: rows.map renderSignRow)

/-- The text of the first key that has one, else of the second key. -/
def Data.firstText (d : Data) (key other : String) : String :=
  if (d.get key).isAbsent then (d.get other).toText else (d.get key).toText

/-- One line for a step, or none. -/
def Record.render (latex : Bool) (r : Record) : Option String :=
  let number (key : String) := showNumber latex (r.detail.get key)
  let text (key : String) := (r.detail.get key).toText
  let list (key : String) := (r.detail.get key).items
  match r.kind with
  | "equation" => some ("Solve " ++ text "equation" ++ " (degree " ++ text "degree" ++ ")")
  | "linear" =>
    some (text "equation" ++ ": x = -(" ++ number "b" ++ ")/(" ++ number "a" ++ ") = " ++
      number "root")
  | "discriminant" =>
    some ((if latex then "\\Delta" else "Δ") ++ " = b^2-4ac = (" ++ number "b" ++ ")^2-4(" ++
      number "a" ++ ")(" ++ number "c" ++ ") = " ++ number "delta")
  | "roots" =>
    let roots := (list "results").map (showNumber latex)
    let noRoots := if latex then "\\emptyset" else "∅"
    some ("Roots of " ++ text "equation" ++ ": " ++
      (if roots.isEmpty then noRoots else ", ".intercalate roots))
  | "impossible" => some (text "equation" ++ ": no real solutions")
  | "identity" => some (text "equation" ++ ": true for every x")
  | "unfactorable" =>
    some (r.detail.firstText "polynomial" "equation" ++ ": cannot factor (" ++ text "reason" ++ ")")
  | "ruffini_candidates" =>
    some ("Candidate zeros of " ++ text "polynomial" ++ ": " ++
      ", ".intercalate ((list "candidates").map (showNumber latex)))
  | "ruffini_root" => some ("P(" ++ number "root" ++ ") = 0")
  | "ruffini_table" =>
    some (renderRuffiniTable latex (list "coefficients") (list "products") (list "sums")
      (r.detail.get "root"))
  | "ruffini_factors" => some (text "polynomial" ++ " = " ++ text "product")
  | "sign_piece" => some (text "piece" ++ " > 0 for " ++ text "positive_where")
  | "sign_table" => some (renderSignTable latex (list "breakpoints") (list "rows"))
  | "derivative" | "second_derivative" =>
    some (r.detail.firstText "derivative" "second_derivative")
  | "extremum" =>
    some ((if text "kind" = "max" then "Maximum" else "Minimum") ++ " at (" ++ number "x" ++ ", " ++
      number "y" ++ ")")
  | "intersect_y" =>
    let point := r.detail.get "point"
    some ("y-axis intersection (" ++ showNumber latex (point.get "x") ++ ", " ++
      showNumber latex (point.get "y") ++ ")")
  | "parity" =>
    some ("f(-x) = " ++ text "f_of_minus_x" ++ ", -f(x) = " ++ text "minus_f" ++ ": " ++
      text "parity")
  | "area" => some ("A = " ++ number "value")
  | "error" => some ("Error: " ++ text "message")
  | _ => none

/-- The lines of a trace, each in display mode for LaTeX. -/
def renderRecords (latex : Bool) (records : List Record) : List String :=
  let lines := (records.filterMap (·.render latex)).filter (!·.isEmpty)
  if latex then lines.map fun line => "\\[ " ++ line ++ " \\]" else lines

def renderTrace (latex : Bool) (steps : List Step) : List String :=
  renderRecords latex (steps.map Step.toRecord)

end FunctionStudy
