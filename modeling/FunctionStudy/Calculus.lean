import FunctionStudy.Equation
import FunctionStudy.Binary64.Elementary

/-! Derivatives, primitives and slopes. Derivation and integration go term by term over the polynomial
of an equation. A primitive comes with the lines that show how each term was integrated. -/

namespace FunctionStudy

/-- The derivative of one term, if it is not zero. What is left of an exponent at most 1 counts
as a constant. -/
def Term.derivative? (t : Term) : Option Term :=
  match t.literal with
  | none => none
  | some l =>
    let coefficient := t.coefficient.mul l.exponent
    let lowered := l.exponent.sub (.ofInt 1)
    if l.exponent.isZero || coefficient.isZero then none
    else some ⟨coefficient,
      if lowered.isPositive then some { letter := l.letter, exponent := lowered } else none⟩

def Member.derivative (m : Member) : Member := ⟨m.terms.filterMap Term.derivative?⟩

structure Slope where
  value : Binary64
  radians : Binary64
  degrees : Binary64
  isAcute : Bool
  isRight : Bool
  isObtuse : Bool
deriving DecidableEq

def Slope.ofValue (value : Binary64) : Slope where
  value := value
  radians := value.arctan
  degrees := value.arctan.toDegrees
  isAcute := value.isPositive
  isRight := value.isZero
  isObtuse := value.lt .zero

structure Primitive where
  function : Equation
  steps : List String

namespace Equation

/-- The derivative of an order of at least 1, labelled with one prime for each order. -/
def derive (f : Equation) (order : Int) : Except Error Equation := do
  if order < 1 then throw (.domain (.derivativeOrder order))
  let p ← f.polynomial
  let derived := Nat.repeat Member.derivative order.toNat p
  return explicit (f.label ++ String.ofList (List.replicate order.toNat '\'')) derived

/-- The primitive of one term; exponent -1 has none among polynomials. -/
def integrateTerm (letter : String) (t : Term) : Except Error Term := do
  let raised := t.exponent.add (.ofInt 1)
  if raised.isZero then throw (.domain (.logarithm (t.bareText false)))
  let base := (t.literal.map (·.letter)).getD letter
  return ⟨← t.coefficient.div raised, some { letter := base, exponent := raised }⟩

def primitive (f : Equation) : Except Error Primitive := do
  let p ← f.polynomial
  let letter := p.letter
  let pairs ← (p.terms.filter fun t => !t.coefficient.isZero).mapM fun t => do
    return (t, ← integrateTerm letter t)
  let right : Member := ⟨pairs.map (·.2)⟩
  let lines := pairs.map fun (t, integrated) =>
    s!"∫{t.bareText false} d{letter} = {integrated.bareText true}"
  return ⟨explicit "y" right, lines ++ [s!"F({letter}) = {right.format true}"]⟩

/-- The slope of a first-degree function that can be solved for its dependent variable. -/
def slope (f : Equation) : Option Slope :=
  if !f.degree.same (.ofInt 1) then none
  else match f.toExplicit with
    | .error _ => none
    | .ok g =>
      some (.ofValue (((g.right.getByExponent? (.ofInt 1)).map (·.coefficient)).getD .zero))

end Equation
end FunctionStudy
