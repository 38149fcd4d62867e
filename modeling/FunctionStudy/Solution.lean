import FunctionStudy.Binary64.Elementary
import FunctionStudy.Ruffini

/-! Solving equations. Degrees 0 to 2 are solved directly in doubles; a higher degree is split and
each factor is solved in turn, down to a depth limit. What cannot be split leaves the status
`unfactorable` beside roots found elsewhere. -/

namespace FunctionStudy

structure EquationSolution where
  equation : String
  degree : Int
  results : List Binary64 := []
  status : Status := .solved
  a : Option Binary64 := none
  b : Option Binary64 := none
  c : Option Binary64 := none
  delta : Option Binary64 := none
  factored : List String := []
  points : List Point := []
deriving DecidableEq

namespace EquationSolution

def toData (s : EquationSolution) : Data :=
  .record [("equation", .text s.equation), ("degree", .int s.degree),
    ("results", .floats s.results), ("status", .text s.status.name),
    ("a", .optional (s.a.map .float)), ("b", .optional (s.b.map .float)),
    ("c", .optional (s.c.map .float)), ("delta", .optional (s.delta.map .float)),
    ("factored", .texts s.factored),
    ("points", .list (s.points.map Point.toData))]

end EquationSolution

/-- The height of a horizontal axis written `y=3`; nothing after the sign means 0. -/
def axisHeight (label : String) : Except Error Binary64 :=
  match (label.toList.dropWhile (· != '=')).drop 1 with
  | [] => .ok .zero
  | height =>
    match Decimal.readDouble? (String.ofList height) with
    | some x => .ok x
    | none => .error (.parse (.invalidAxisLabel label))

def isBeyond (settings : Settings) : Number → Bool
  | .exact v => settings.maxDegree < v
  | .double x => x.exceeds settings.maxDegree

/-- The degree to solve at: the claimed one, or that of the polynomial. It must be a natural number
within the limit. -/
def solvingDegree (settings : Settings) (p : Member) (claimed : Option Number) :
    Except Error Nat := do
  let degree := claimed.getD (.double p.degree)
  if isBeyond settings degree then throw (.domain (.degreeLimit p.text settings.maxDegree))
  match ← degree.whole? with
  | some (.ofNat n) => return n
  | _ => throw (.domain (.unsolvableDegree (← degree.toBinary64)))

/-- The points of the roots on an axis, registered if there is a registry. -/
def rootPoints (roots : List Binary64) (height : Binary64) : Work (List Point) :=
  roots.mapM fun x => Work.point x height

def solveConstant (settings : Settings) (equation : String) (c : Binary64) :
    Work EquationSolution := do
  if settings.isZero c then
    Work.record (.identity equation)
    return { equation, degree := 0, status := .identity, c }
  else
    Work.record (.impossible equation none)
    return { equation, degree := 0, status := .impossible, c }

def solveLinear (settings : Settings) (equation : String) (height a b : Binary64) :
    Work EquationSolution := do
  if settings.isZero a then throw (.domain (.zeroLeadingLinear equation))
  let root := (← Work.ofExcept (b.neg.div a)).unsignedZero
  Work.record (.linear equation a b root)
  let points ← rootPoints [root] height
  return { equation, degree := 1, results := [root], a, b, points }

/-- `b * b - 4 * a * c`, in doubles. -/
def discriminant (a b c : Binary64) : Binary64 :=
  (b.mul b).sub (((Binary64.ofInt 4).mul a).mul c)

/-- The roots of a quadratic with the given discriminant, ascending. A discriminant that counts as
zero gives one root and a negative one none. -/
def quadraticRoots (settings : Settings) (a b delta : Binary64) :
    Except Error (Option (List Binary64)) := do
  let twice := (Binary64.ofInt 2).mul a
  if settings.isZero delta then
    return some [(← b.neg.div twice).unsignedZero]
  else if delta.lt .zero then return none
  else
    let root := delta.sqrt
    let low := (← (b.neg.sub root).div twice).unsignedZero
    let high := (← (b.neg.add root).div twice).unsignedZero
    return some (Binary64.sortAscending [low, high])

def solveQuadratic (settings : Settings) (equation : String) (height a b c : Binary64) :
    Work EquationSolution := do
  if settings.isZero a then throw (.domain (.zeroLeadingQuadratic equation))
  let delta := discriminant a b c
  Work.record (.discriminant equation a b c delta)
  match ← Work.ofExcept (quadraticRoots settings a b delta) with
  | none =>
    Work.record (.impossible equation (some "negative discriminant"))
    return { equation, degree := 2, status := .impossible, a, b, c, delta }
  | some results =>
    Work.record (.roots equation results none)
    let points ← rootPoints results height
    return { equation, degree := 2, results, a, b, c, delta, points }

abbrev HigherSolver := Equation → Int → Work EquationSolution

/-- Solves the polynomial of an equation for its real roots, at the claimed degree if there is
one. -/
def solveWith (higher : HigherSolver) (settings : Settings) (axis : String) (f : Equation)
    (claimed : Option Number) : Work EquationSolution := do
  let p := (← Work.ofExcept f.polynomial).simplify.normalize
  let degree ← Work.ofExcept (solvingDegree settings p claimed)
  let equation := p.text ++ "=0"
  let height ← Work.ofExcept (axisHeight axis)
  Work.record (.equation equation degree axis)
  if 3 ≤ degree then higher f degree
  else
    match ← Work.ofExcept (p.coefficientsTo degree) with
    | [c] => solveConstant settings equation c
    | [a, b] => solveLinear settings equation height a b
    | [a, b, c] => solveQuadratic settings equation height a b c
    | _ => throw .indexOutOfRange

def joinPoints (old new : List Point) : List Point :=
  old ++ new.filter fun p => !old.any (·.same p)

/-- What solving the factors one after the other has found so far. -/
structure FactorRoots where
  results : List Binary64 := []
  points : List Point := []
  factored : List String := []
  status : Status := .solved

/-- Adds the solution of one factor; a factor that was not split further stands for itself. -/
def FactorRoots.add (found : FactorRoots) (factor : String) (s : EquationSolution) :
    FactorRoots where
  results := found.results ++ s.results
  points := joinPoints found.points s.points
  factored := found.factored ++ if s.factored.isEmpty then [factor] else s.factored
  status := if s.status = .unfactorable then .unfactorable else found.status

/-- Solves an equation of degree 3 or more by splitting it, with at most `remaining` splits on
the way down. -/
def solveHigher (settings : Settings) (axis : String) : Nat → HigherSolver
  | 0, f, degree => do
    let equation := (← Work.ofExcept f.polynomial).text ++ "=0"
    Work.record (.unfactorableEquation equation "depth limit")
    return { equation, degree, status := .unfactorable }
  | remaining + 1, f, degree => do
    let equation := (← Work.ofExcept f.polynomial).text ++ "=0"
    let factorization ← factor settings f
    if !factorization.isSplit then return { equation, degree, status := .unfactorable }
    let found ← factorization.factors.foldlM (fun found text => do
      let g ← Work.ofExcept (Equation.ofText text)
      let s ← solveWith (solveHigher settings axis remaining) settings axis g none
      return found.add text s) ({} : FactorRoots)
    let results ← Work.ascending (.roots remaining) found.results
    let status :=
      if results.isEmpty ∧ found.status = .solved then .impossible else found.status
    Work.record (.roots equation results (some found.factored))
    return { equation, degree, results, status, factored := found.factored, points := found.points }

def remainingDepth (settings : Settings) (depth : Int) : Nat := (settings.maxDepth - depth).toNat

def solve (settings : Settings) (axis : String) (depth : Int) (f : Equation)
    (claimed : Option Number) : Work EquationSolution :=
  solveWith (solveHigher settings axis (remainingDepth settings depth)) settings axis f claimed

/-- Where a function meets an axis: at its constant on the vertical axis, at the roots of its
polynomial on the horizontal one. -/
def intersectAxis (settings : Settings) (f : Equation) (axis : String) : Work EquationSolution := do
  if axis = "y" then
    let c := (← Work.ofExcept f.polynomial).constantTerm.unsignedZero
    let p ← Work.point .zero c
    Work.record (.verticalIntersection f.text p)
    return { equation := f.text ++ ", x=0", degree := 0, results := [c], points := [p] }
  else if axis = "x" then solve settings "y=0" 0 f none
  else throw (.unknownAxis axis)

end FunctionStudy
