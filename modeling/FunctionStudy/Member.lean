import FunctionStudy.Chunks
import FunctionStudy.Term

/-! Members. One side of an equation: its terms in the order they are written. Order matters for
display only; `normalize` sorts by exponent, `simplify` collects like terms, `complete` fills gaps
with zeros. -/

namespace FunctionStudy

structure Member where
  terms : List Term
deriving DecidableEq

namespace Member

/-- The letter of a member that names none. -/
def defaultLetter : String := "x"

def parse (expression : String) : Except Error Member :=
  (splitTerms expression).mapM Term.parse |>.map Member.mk

def append (m : Member) (t : Term) : Member := ⟨m.terms ++ [t]⟩

/-- The terms one after the other, without a plus sign in front; an empty member is 0. -/
def format (m : Member) (asFraction : Bool) : String :=
  match (String.join (m.terms.map (·.format asFraction))).toList with
  | [] => "0"
  | ['+'] => "0"
  | '+' :: rest => String.ofList rest
  | text => String.ofList text

def text (m : Member) : String := m.format false

/-- The largest exponent of a literal part, or 0. -/
def degree (m : Member) : Binary64 :=
  match m.terms.filterMap (·.literal) with
  | [] => .zero
  | l :: rest => rest.foldl (fun d l => d.max l.exponent) l.exponent

/-- The coefficient of the first term without literal part, or 0. -/
def constantTerm (m : Member) : Binary64 :=
  ((m.terms.find? (·.literal.isNone)).map (·.coefficient)).getD .zero

/-- The first letter that does not label the dependent variable. -/
def letter (m : Member) : String :=
  ((m.terms.filterMap (·.literal)).find? fun l => !l.letter.startsWith "y").map (·.letter)
    |>.getD defaultLetter

def leadingCoefficient (m : Member) : Binary64 :=
  (m.terms.head?.map (·.coefficient)).getD .zero

/-- The first term whose literal part has the exponent. -/
def getByExponent? (m : Member) (exponent : Binary64) : Option Term :=
  m.terms.find? fun t => (t.literal.map (·.exponent.same exponent)).getD false

/-- The term at a position; negative positions count from the end. -/
def get (m : Member) (index : Int) : Except Error Term :=
  let position := if index < 0 then index + m.terms.length else index
  if position < 0 then .error .indexOutOfRange
  else match m.terms[position.toNat]? with
    | some t => .ok t
    | none => .error .indexOutOfRange

/-- Descending exponents; terms of equal exponent keep their order. -/
def normalize (m : Member) : Member :=
  ⟨m.terms.mergeSort fun t u => !(t.exponent.lt u.exponent)⟩

/-- The exponents `degree`, …, 1 that no literal part has, each as a zero term. -/
def placeholders (m : Member) (degree : Int) (letter : String) : List Term :=
  let present := (m.terms.filterMap (·.literal)).map (·.exponent)
  let missing := (List.range degree.toNat).reverse.map fun (n : Nat) => Binary64.ofInt (n + 1 : Nat)
  (missing.filter fun e => !present.any (·.same e)).map fun e =>
    ⟨.zero, some { letter, exponent := e }⟩

/-- A term for every exponent from `degree` down to 0. -/
def completeTo (m : Member) (degree : Int) (letter : String) : Member :=
  let constants := if m.terms.any (·.literal.isNone) then [] else [Term.constant .zero]
  normalize ⟨m.terms ++ m.placeholders degree letter ++ constants⟩

/-- `completeTo` with the member's own degree and letter where none is given. -/
def complete (m : Member) (degree : Option Binary64) (letter : Option String) :
    Except Error Member := do
  let target ← (degree.getD m.degree).toInt
  let name := match letter with
    | none | some "" => m.letter
    | some name => name
  return m.completeTo target name

/-- The keys of like terms, in order of first appearance, with one literal part for each. -/
def groups (m : Member) : List (String × Option Literal) :=
  m.terms.foldl (fun seen t =>
    if seen.any (·.1 == t.key) then seen
    else seen ++ [(t.key, if t.key.isEmpty then none else t.literal)]) []

/-- The sum of the coefficients of the terms with a key, in order. -/
def coefficientSum (m : Member) (key : String) : Binary64 :=
  Binary64.sum ((m.terms.filter fun t => t.key == key).map (·.coefficient))

/-- One term for each key; sums equal to 0 vanish. -/
def simplify (m : Member) : Member :=
  ⟨(m.groups.map fun (key, literal) => Term.mk (m.coefficientSum key) literal).filter
    fun t => !t.coefficient.isZero⟩

def negated (m : Member) : Member := ⟨m.terms.map Term.negated⟩

/-- The exponents as natural numbers, or the first one that is not. -/
def naturalExponents (m : Member) : Except Error (List (Nat × Term)) :=
  m.terms.mapM fun t => do
    if t.exponent.lt .zero then
      throw (.domain (.exponentNotNatural t.exponent))
    let n ← t.exponent.toInt
    if !t.exponent.isIntegral then
      throw (.domain (.exponentNotNatural t.exponent))
    return (n.toNat, t)

/-- The dense coefficients, highest exponent first, of the exponents `degree` down to 0. -/
def coefficientsTo (m : Member) (degree : Int) : Except Error (List Binary64) := do
  let indexed ← m.naturalExponents
  match indexed.find? fun (n, _) => degree < n with
  | some (_, t) => throw (.domain (.termExceedsDegree (t.bareText false) degree))
  | none => pure ()
  return (List.range (degree + 1).toNat).reverse.map fun n =>
    Binary64.sum ((indexed.filter fun (k, _) => k == n).map (·.2.coefficient))

/-- The dense coefficients up to the member's own degree. -/
def coefficients (m : Member) : Except Error (List Binary64) := do
  let _ ← m.naturalExponents
  m.coefficientsTo (← m.degree.toInt)

/-- The keys and coefficient sums, sorted by key: equal for members with equal like-term sums. -/
def canonical (m : Member) : List (String × Binary64) :=
  (m.simplify.terms.map fun t => (t.key, t.coefficient)).mergeSort fun a b => a.1 ≤ b.1

def sameCanonical (m n : Member) : Bool :=
  let a := m.canonical
  let b := n.canonical
  a.length == b.length && (a.zip b).all fun (p, q) => p.1 == q.1 && p.2.same q.2

def same (m n : Member) : Bool :=
  m.terms.length == n.terms.length && (m.terms.zip n.terms).all fun (t, u) => t.same u

/-- The member with the given dense coefficients, highest exponent first; zeros are left out. -/
def ofCoefficients (coefficients : List Binary64) (letter : String) : Member :=
  let degree := coefficients.length - 1
  ⟨coefficients.zipIdx.filterMap fun (c, i) =>
    if c.isZero then none
    else if i < degree then
      some ⟨c, some { letter, exponent := .ofInt ((degree - i : Nat) : Int) }⟩
    else some (.constant c)⟩

end Member
end FunctionStudy
