import FunctionStudy.Study.Shape

/-! Area between points: the total of `|F(b) - F(a)|` over neighbouring points, with `F` a
primitive. -/

namespace FunctionStudy

open Decimal (plainText)

structure AreaResult where
  ok : Bool
  value : Option Binary64 := none
  primitive : Option String := none
  xs : List Binary64 := []
  evaluations : List Binary64 := []
  steps : List String := []
  error : Option String := none
deriving DecidableEq

def AreaResult.toData (r : AreaResult) : Data :=
  .record [("ok", .bool r.ok), ("value", .optional (r.value.map .float)),
    ("primitive", .optional (r.primitive.map .text)), ("xs", .floats r.xs),
    ("evaluations", .floats r.evaluations), ("steps", .texts r.steps),
    ("error", .optional (r.error.map .text))]

def areaLine (a b fa fb piece : Binary64) : String :=
  "|F(" ++ plainText b ++ ")-F(" ++ plainText a ++ ")| = |" ++ plainText fb ++ "-(" ++
    plainText fa ++ ")| = " ++ plainText piece

def neighbours {α : Type} (xs : List α) : List (α × α) := xs.zip xs.tail

/-- The area of an equation over points, of which two must be distinct. The equation is read only
when they are. -/
def area (settings : Settings) (f : Except Error Equation) (points : List Binary64) :
    Work AreaResult := do
  let xs ← Work.ascending .areaPoints (points.map (·.unsignedZero))
  if xs.length < 2 then
    return { ok := false, xs, error := some "Area needs at least two distinct x values." }
  let f ← Work.ofExcept f
  Work.ofExcept (settings.checkDegree f.degree f.text)
  let primitive ← Work.ofExcept f.primitive
  let evaluations ← Work.ofExcept (xs.mapM fun x => primitive.function.evaluate (.double x))
  let pieces := (neighbours (xs.zip evaluations)).map fun ((a, fa), (b, fb)) =>
    let piece := (fb.sub fa).abs
    (piece, areaLine a b fa fb piece)
  let value := Binary64.sum (pieces.map (·.1))
  let text := primitive.function.text
  Work.record (.area text xs evaluations value)
  return {
    ok := true, value, primitive := text, xs, evaluations
    steps := primitive.steps ++ pieces.map (·.2) ++ ["A = " ++ plainText value] }

end FunctionStudy
