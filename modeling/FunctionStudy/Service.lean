import FunctionStudy.Data.Json
import FunctionStudy.Worksheet

/-! The service. Requests by method and path with a body of data, and the responses to them. A body
that does not fit the request is refused as a whole; every accepted request works on a registry of
its own. Transport is not part of this. -/

namespace FunctionStudy

inductive Response where
  | ok (body : Data)
  /-- The body is not what the request needs. -/
  | unprocessable
  | failed (status : Nat) (detail : String)

namespace Data

def text? : Data → Option String
  | .text s => some s
  | _ => none

def list? : Data → Option (List Data)
  | .list items => some items
  | _ => none

/-- A value that may be missing or null; anything else must be readable. -/
def optionally {α : Type} (read : Data → Option α) : Data → Option (Option α)
  | .null => some none
  | d => (read d).map some

def texts? (d : Data) : Option (List String) := d.list?.bind fun items => items.mapM text?

/-- A number, a truth value, or a text that writes a number in ASCII digits. -/
def double? (d : Data) : Option Binary64 :=
  let isForeign (c : Char) : Bool := Text.isDigit c && !c.isDigit
  if (d.text?.map (·.any isForeign)).getD false then none
  else match d.asDouble? with
    | .ok x => x
    | .error _ => none

def doubles? (d : Data) : Option (List Binary64) := d.list?.bind fun items => items.mapM double?

end Data

def Point.ofData? (d : Data) : Option Point :=
  match d with
  | .map _ => do
    let x ← (d.get "x").double?
    let y ← (d.get "y").double?
    let name ← (d.get "name").optionally Data.text?
    let background ← (d.get "background").optionally Data.text?
    let foreground ← (d.get "foreground").optionally Data.text?
    return ⟨x, y, name, background, foreground⟩
  | _ => none

/-- A point for the graph page, without what is missing or not finite. -/
def Point.graphData (p : Point) : Data :=
  .record (p.entries.filter fun (_, d) =>
    match d with
    | .null => false
    | .float x => x.isFinite
    | _ => true)

/-- The parameters of the graph page: two JSON texts. -/
def graphParameters (functions : List String) (points : List Point) : Data :=
  .record [("functions", .text (Data.texts functions).toJson),
    ("points", .text (Data.list (points.map Point.graphData)).toJson)]

structure ServiceRequest where
  method : String
  path : String
  body : Data

namespace Service

def withBody {α : Type} (read : Data → Option α) (answer : α → Except Error Response)
    (body : Data) : Except Error Response :=
  match body with
  | .map _ =>
    match read body with
    | some request => answer request
    | none => .ok .unprocessable
  | _ => .ok .unprocessable

def solveRequest (settings : Settings) (equation : String) : Except Error Response :=
  .ok (.ok (reportSolution settings .empty equation).1.toData)

def factorRequest (settings : Settings) (expression : String) : Except Error Response :=
  .ok (.ok (reportFactorization settings .empty expression).1.toData)

def readStudy (body : Data) : Option (String × Option (List String) × List Binary64) := do
  let expression ← (body.get "expression").text?
  let operations ← (body.get "operations").optionally Data.texts?
  let areaPoints ← (body.get "area_points").optionally Data.doubles?
  return (expression, operations, areaPoints.getD [])

def studyRequest (settings : Settings) :
    String × Option (List String) × List Binary64 → Except Error Response
  | (expression, operations, areaPoints) =>
    .ok (.ok (reportStudy settings .empty expression operations areaPoints).1.toData)

/-- Runs a worksheet given as YAML; a malformed one is the sender's fault. -/
def runWorksheet (settings : Settings) (yaml : String) : Except Error Response :=
  match Worksheet.ofYaml yaml with
  | .ok w =>
    .ok (.ok (.record [("title", .text w.title),
      ("results", .record ((w.run settings .empty).1.map fun (id, r) => (id, r.toData)))]))
  | .error (.worksheet e) => .ok (.failed 400 e.message)
  | .error e => .error e

def listWorksheet (settings : Settings) (files : String → Option String) : Except Error Response :=
  match settings.worksheetPath with
  | none | some "" => .ok (.failed 404 "WORKSHEET_PATH not set.")
  | some path =>
    match files path with
    | none =>
      .ok (.failed 500 ("Cannot load worksheet: [Errno 2] No such file or directory: " ++
        Text.quoted path))
    | some text =>
      match Worksheet.ofYaml text with
      | .ok w =>
        .ok (.ok (.record [("title", .text w.title), ("count", .int w.entries.length),
          ("items", .list (w.entries.map WorksheetEntry.toData))]))
      | .error (.worksheet e) => .ok (.failed 500 ("Cannot load worksheet: " ++ e.message))
      | .error e => .error e

def readGraph (body : Data) : Option (List String × List Point) := do
  let functions ← (body.get "functions").texts?
  let points ← (body.get "points").optionally fun d =>
    d.list?.bind fun items => items.mapM Point.ofData?
  return (functions, points.getD [])

/-- The response to a request. `files` gives the text of the file at a path. -/
def respond (settings : Settings) (files : String → Option String) (r : ServiceRequest) :
    Except Error Response :=
  match r.method, r.path with
  | "GET", "/health" => .ok (.ok (.record [("ok", .bool true)]))
  | "POST", "/solve" => withBody (fun d => (d.get "equation").text?) (solveRequest settings) r.body
  | "POST", "/factor" =>
    withBody (fun d => (d.get "expression").text?) (factorRequest settings) r.body
  | "POST", "/study" => withBody readStudy (studyRequest settings) r.body
  | "GET", "/worksheet" => listWorksheet settings files
  | "POST", "/worksheet" =>
    withBody (fun d => (d.get "yaml").text?) (runWorksheet settings) r.body
  | "POST", "/graph" =>
    withBody readGraph (fun (functions, points) => .ok (.ok (graphParameters functions points)))
      r.body
  | _, _ => .ok (.failed 404 "Not Found")

end Service
end FunctionStudy
