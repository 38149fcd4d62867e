import FunctionStudy.Solution

/-! Elementary inequalities: where one factor of a polynomial is positive. Signs are asked just to
the right of a point, where `x > b` holds at `b` itself and `x < b` does not. -/

namespace FunctionStudy

inductive Comparison where
  | above
  | below
  /-- A sign that compares nothing. -/
  | other (sign : String)
deriving DecidableEq

def Comparison.ofSign (sign : String) : Comparison :=
  if sign = ">" then .above else if sign = "<" then .below else .other sign

def Comparison.sign : Comparison → String
  | .above => ">"
  | .below => "<"
  | .other sign => sign

structure Condition where
  comparison : Comparison
  bound : Binary64
deriving DecidableEq

namespace Condition

/-- Whether the condition holds just to the right of `x`. -/
def holdsRightOf (c : Condition) (x : Binary64) : Except Error Bool :=
  match c.comparison with
  | .above => .ok (c.bound.le x)
  | .below => .ok (x.lt c.bound)
  | .other sign => .error (.unknownComparison sign)

def format (letter : String) (c : Condition) : String :=
  letter ++ c.comparison.sign ++ Decimal.plainText c.bound

def Holds (c : Condition) (x : Rat) : Prop :=
  match c.comparison with
  | .above => c.bound.toRat < x
  | .below => x < c.bound.toRat
  | .other _ => False

end Condition

inductive Mode where
  | always
  | never
  | all
  | any
  /-- Unnamed: read like `any` and written like `all`. -/
  | other
deriving DecidableEq

def Mode.ofName (name : String) : Mode :=
  match name with
  | "always" => .always
  | "never" => .never
  | "all" => .all
  | "any" => .any
  | _ => .other

def Mode.name : Mode → String
  | .always => "always"
  | .never => "never"
  | .all => "all"
  | .any => "any"
  | .other => "other"

structure Inequality where
  mode : Mode
  conditions : List Condition := []
  piece : String := ""
deriving DecidableEq

namespace Inequality

def bounds (i : Inequality) : List Binary64 := i.conditions.map (·.bound)

/-- 1 where the piece is positive just to the right of `x`, else -1. -/
def signRightOf (i : Inequality) (x : Binary64) : Except Error Int := do
  match i.mode with
  | .always => return 1
  | .never => return -1
  | mode =>
    let checks ← i.conditions.mapM (·.holdsRightOf x)
    let holds := if mode = .all then checks.all id else checks.any id
    return if holds then 1 else -1

/-- Whether the piece is positive at a rational, with its conditions taken strictly. -/
def Holds (i : Inequality) (x : Rat) : Prop :=
  match i.mode with
  | .always => True
  | .never => False
  | .all => ∀ c ∈ i.conditions, c.Holds x
  | .any | .other => ∃ c ∈ i.conditions, c.Holds x

/-- Two conditions that must both hold are written as a chain from the lower bound to the
higher. -/
def format (letter : String) (i : Inequality) : String :=
  match i.mode, i.conditions with
  | .always, _ => "∀" ++ letter
  | .never, _ => "∅"
  | .all, [_, _] =>
    match Binary64.sortAscending i.bounds with
    | [low, high] => Decimal.plainText low ++ "<" ++ letter ++ "<" ++ Decimal.plainText high
    | _ => ""
  | .any, conditions => " ∨ ".intercalate (conditions.map (·.format letter))
  | _, conditions => " ∧ ".intercalate (conditions.map (·.format letter))

end Inequality

/-- Where a piece of degree 0, 1 or 2 is positive. The roots of a quadratic piece are found as
those of an equation, without keeping steps or points. -/
def pieceInequality (settings : Settings) (piece : Member) : Except Error Inequality := do
  let text := piece.text
  let degree ← piece.degree.toInt
  match degree, ← piece.coefficientsTo degree with
  | 0, [c] => return ⟨if c.isPositive then .always else .never, [], text⟩
  | 1, [a, b] =>
    let root := (← b.neg.div a).unsignedZero
    return ⟨.all, [⟨if a.isPositive then .above else .below, root⟩], text⟩
  | _, a :: _ =>
    let f ← Equation.parse (text ++ "=0")
    let solution ← (solve settings "y=0" 0 f (some (.exact 2))).answer
    match solution.results with
    | [low, high] =>
      if a.isPositive then return ⟨.any, [⟨.below, low⟩, ⟨.above, high⟩], text⟩
      else return ⟨.all, [⟨.above, low⟩, ⟨.below, high⟩], text⟩
    | _ => return ⟨if a.isPositive then .always else .never, [], text⟩
  | _, [] => throw .indexOutOfRange

end FunctionStudy
