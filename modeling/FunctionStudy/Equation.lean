import FunctionStudy.Member

/-! Equations and explicit functions. An equation has a left and a right member. It is explicit when
its left member is the dependent variable alone, `y` with any number of primes; then the right
member is the function. -/

namespace FunctionStudy

structure Equation where
  left : Member
  right : Member
deriving DecidableEq

/-- Whether a letter labels the dependent variable: `y` with primes only. -/
def isDependentLetter (letter : String) : Bool :=
  match Literal.dropFinalNewline letter.toList with
  | 'y' :: primes => primes.all (· == '\'')
  | _ => false

/-- A dependent variable to the first power, with any coefficient. -/
def Term.isDependent (t : Term) : Bool :=
  match t.literal with
  | none => false
  | some l => isDependentLetter l.letter && l.exponent.same (.ofInt 1)

namespace Equation

def parse (text : String) : Except Error Equation := do
  let (left, right) ← splitSides text
  return ⟨← Member.parse left, ← Member.parse right⟩

/-- An equation, or a bare polynomial, which is set equal to zero. -/
def ofText (text : String) : Except Error Equation :=
  if text.toList.contains '=' then parse text else parse (text ++ "=0")

def format (f : Equation) (asFraction : Bool) : String :=
  f.left.format asFraction ++ "=" ++ f.right.format asFraction

def text (f : Equation) : String := f.format false

def same (f g : Equation) : Bool := f.left.same g.left && f.right.same g.right

def degree (f : Equation) : Binary64 := f.left.degree.max f.right.degree

def isExplicit (f : Equation) : Bool :=
  match f.left.terms with
  | [t] => t.isDependent && t.coefficient.same (.ofInt 1)
  | _ => false

def isImplicit (f : Equation) : Bool := !f.isExplicit

def constantTerm (f : Equation) : Binary64 :=
  if f.isExplicit then f.right.constantTerm else f.left.constantTerm

/-- The term of an exponent in the right member for index 1, else in the left one. -/
def getByExponent? (f : Equation) (exponent : Binary64) (side : Int) : Option Term :=
  (if side = 1 then f.right else f.left).getByExponent? exponent

def hasDependent (f : Equation) : Bool :=
  f.left.terms.any (·.isDependent) || f.right.terms.any (·.isDependent)

def normalize (f : Equation) : Equation := ⟨f.left.normalize, f.right.normalize⟩

def simplify (f : Equation) : Equation := ⟨f.left.simplify, f.right.simplify⟩

/-- Zero constants say nothing beside other terms; a member of nothing else keeps its first
term. -/
def dropZeroConstants (terms : List Term) : List Term :=
  if terms.length ≤ 1 then terms
  else
    match terms.filter fun t => !(t.literal.isNone && t.coefficient.isZero) with
    | [] => terms.take 1
    | kept => kept

/-- The equation solved for the dependent variable of its left member: every other left term
changes side and sign, and the coefficients are divided by that of the variable. -/
def toExplicit (f : Equation) : Except Error Equation := do
  if f.isExplicit then return f
  let dependent := f.left.terms.filter (·.isDependent)
  match dependent.head?.bind (·.literal) with
  | none => throw (.domain (.noDependentTerm f.text))
  | some label =>
    let k := Binary64.sum (dependent.map (·.coefficient))
    if k.isZero then throw (.domain (.dependentTermsCancel f.text))
    let moved := (f.left.terms.filter fun t => !t.isDependent).map Term.negated
    let terms := dropZeroConstants (f.right.terms ++ moved)
    let scaled ←
      if k.same (.ofInt 1) then pure terms
      else do
        let factor ← (Binary64.ofInt 1).div k
        pure (terms.map (·.scaled factor))
    return normalize ⟨⟨[⟨.ofInt 1, some (.label label.letter)⟩]⟩, ⟨scaled⟩⟩

/-- An explicit function as left minus right equal to zero. -/
def toImplicit (f : Equation) : Equation :=
  if f.isExplicit then
    normalize ⟨⟨f.left.terms ++ f.right.negated.terms⟩, ⟨[.constant .zero]⟩⟩
  else f

/-- The expression that the equation sets to zero: the right member of an explicit function, else
left minus right with like terms collected. -/
def polynomial (f : Equation) : Except Error Member :=
  if f.isExplicit then .ok f.right
  else if f.hasDependent then f.toExplicit.map (·.right)
  else .ok (Member.simplify ⟨f.left.terms ++ f.right.negated.terms⟩).normalize

def variableLetter (f : Equation) : Except Error String := f.polynomial.map (·.letter)

def complete (f : Equation) : Except Error Equation := do
  let letter ← f.variableLetter
  let left ← f.left.complete f.degree letter
  let right ← f.right.complete f.degree letter
  return ⟨left, right⟩

/-- The letter of the function's label, without the primes of a further derivative. -/
def label (f : Equation) : String :=
  if f.isExplicit then (f.left.terms.head?.bind (·.literal)).elim "y" (·.letter) else "y"

def explicit (label : String) (right : Member) : Equation :=
  ⟨⟨[⟨.ofInt 1, some (.label label)⟩]⟩, right⟩

end Equation

/-- The divisor `x-r` of a root, written `x+|r|` for a negative one and `x` for zero. -/
def linearFactor (root : Binary64) (letter : String) : String :=
  if root.isZero then letter
  else if root.isPositive then letter ++ "-" ++ Decimal.plainText root
  else letter ++ "+" ++ Decimal.plainText root.neg

end FunctionStudy
