import FunctionStudy.Equation
import FunctionStudy.Evaluation
import FunctionStudy.Ruffini.Candidates
import FunctionStudy.Ruffini.SyntheticDivision
import FunctionStudy.Work

/-! Factoring by Ruffini's rule. A root is found by evaluating the printed polynomial exactly; the
quotient is computed exactly and kept as doubles. Finding no root is an answer, not a failure. -/

namespace FunctionStudy

inductive Status where
  | solved
  | impossible
  | identity
  | unfactorable
deriving DecidableEq

def Status.name : Status → String
  | .solved => "solved"
  | .impossible => "impossible"
  | .identity => "identity"
  | .unfactorable => "unfactorable"

/-- A polynomial as quotient times linear factor, with the division that shows it. -/
structure Split where
  quotient : String
  divisor : String
  table : RuffiniTable
deriving DecidableEq

structure Factorization where
  polynomial : String
  split : Option Split
deriving DecidableEq

namespace Factorization

def isSplit (f : Factorization) : Bool := f.split.isSome

def factors (f : Factorization) : List String :=
  match f.split with
  | some s => [s.quotient, s.divisor]
  | none => []

def status (f : Factorization) : Status := if f.isSplit then .solved else .unfactorable

def entries (f : Factorization) : List (String × Data) :=
  [("polynomial", .text f.polynomial), ("factors", .texts f.factors),
    ("root", .optional (f.split.map fun s => .float s.table.root)),
    ("table", .optional (f.split.map fun s => s.table.toData)),
    ("status", .text f.status.name)]

def toData (f : Factorization) : Data := .record f.entries

end Factorization

/-- Dense coefficients without zeros in front; the last one stays. -/
def dropLeadingZeros : List Binary64 → List Binary64
  | c :: d :: rest => if c.isZero then dropLeadingZeros (d :: rest) else c :: d :: rest
  | cs => cs

/-- The first candidate at which the text is exactly zero. -/
def findRoot (text letter : String) (candidates : List Rat) : Except Error (Option Rat) := do
  if candidates.isEmpty then return none
  let collected ← compile text letter
  return candidates.find? fun c => (collected.valueAt c).isZero

def Division.table (d : Division) (coefficients : List Binary64) (root : Rat) :
    Except Error RuffiniTable := do
  return ⟨coefficients, ← Binary64.ofRatChecked root, ← d.products.mapM Binary64.ofRatChecked,
    ← d.sums.mapM Binary64.ofRatChecked⟩

def factor (settings : Settings) (f : Equation) : Work Factorization := do
  let p := (← Work.ofExcept f.polynomial).normalize
  let text := p.text
  let letter := p.letter
  Work.ofExcept (settings.checkDegree p.degree text)
  let dense := dropLeadingZeros (← Work.ofExcept p.coefficients)
  let unfactorable (reason : String) : Work Factorization := do
    Work.record (.unfactorablePolynomial text reason)
    return ⟨text, none⟩
  match dense.head?, dense.getLast?, dense.tail with
  | some leading, some constant, _ :: _ =>
    if (leading.abs.max constant.abs).exceeds settings.maxDivisor then
      unfactorable "coefficient too large for divisor search"
    else
      let candidates ← Work.ofExcept (candidateRoots (.double constant) (.double leading))
      let shown ← Work.ofExcept (candidates.mapM Binary64.ofRatChecked)
      Work.record (.ruffiniCandidates text shown)
      let written := (Member.ofCoefficients dense letter).text
      match ← Work.ofExcept (findRoot written letter candidates) with
      | none => unfactorable "no rational root among candidates"
      | some root =>
        Work.record (.ruffiniRoot text (.round root))
        let division ← Work.ofExcept (syntheticDivision (dense.map .double) (.exact root))
        let table ← Work.ofExcept (division.table dense root)
        Work.record (.ruffiniTable table)
        let quotient := (Member.ofCoefficients table.quotient letter).text
        let divisor := linearFactor table.root letter
        Work.record (.ruffiniFactors text quotient divisor)
        return ⟨text, some ⟨quotient, divisor, table⟩⟩
  | _, _, _ => unfactorable "degree < 1"

end FunctionStudy
