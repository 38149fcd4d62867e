import FunctionStudy.Data
import FunctionStudy.Error

/-! Named points. Points found in a study are registered once for each pair of coordinates and named
in order of registration `A`, …, `Z`, `AA`, `AB`, …, as columns of a sheet are. -/

namespace FunctionStudy

structure Point where
  x : Binary64
  y : Binary64
  name : Option String
  background : Option String
  foreground : Option String
deriving DecidableEq

namespace Point

def unnamed (x y : Binary64) : Point := ⟨x, y, none, none, none⟩

/-- Numerically equal coordinates, and everything else equal. -/
def same (p q : Point) : Bool :=
  p.x.same q.x && p.y.same q.y && p.name == q.name && p.background == q.background &&
    p.foreground == q.foreground

def isAt (p : Point) (x y : Binary64) : Bool := p.x.same x && p.y.same y

def entries (p : Point) : List (String × Data) :=
  [("x", .float p.x), ("y", .float p.y), ("name", .optional (p.name.map .text)),
    ("background", .optional (p.background.map .text)),
    ("foreground", .optional (p.foreground.map .text))]

def toData (p : Point) : Data := .record p.entries

end Point

/-- The letters of the `n`-th name, counted from 1: base 26 with digits from 1 to 26. -/
def columnLetters (n : Nat) : List Char :=
  if n = 0 then []
  else columnLetters ((n - 1) / 26) ++ [Char.ofNat ('A'.toNat + (n - 1) % 26)]
termination_by n
decreasing_by omega

/-- The name of a position; there is none before the first. -/
def pointName (index : Int) : String := String.ofList (columnLetters (index + 1).toNat)

structure Registry where
  points : List Point
deriving DecidableEq

namespace Registry

def empty : Registry := ⟨[]⟩

def reset (_ : Registry) : Registry := empty

/-- The registered point at the coordinates, added under the next name if there is none yet. -/
def add (r : Registry) (x y : Binary64) (background foreground : Option String) :
    Point × Registry :=
  let x := x.unsignedZero
  let y := y.unsignedZero
  match r.points.find? (·.isAt x y) with
  | some p => (p, r)
  | none =>
    let p : Point := ⟨x, y, some (pointName r.points.length), background, foreground⟩
    (p, ⟨r.points ++ [p]⟩)

def onAxis (r : Registry) (axis : String) : Except Error (List Point) :=
  if axis = "x" then .ok (r.points.filter (·.y.isZero))
  else if axis = "y" then .ok (r.points.filter (·.x.isZero))
  else .error (.unknownAxis axis)

def toData (r : Registry) : Data := .list (r.points.map Point.toData)

end Registry
end FunctionStudy
