import FunctionStudy.SignTable

/-! Where a function is positive. The polynomial is split until every piece has degree at most 2, and
the pieces are put into one sign table. One that cannot be split far enough gets no intervals. -/

namespace FunctionStudy

/-- The pieces of a polynomial, or nothing if one of degree above 2 cannot be split. -/
def splitPieces (settings : Settings) : Nat → Member → Work (Option (List Member))
  | remaining, p => do
    Work.ofExcept (settings.checkDegree p.degree p.text)
    if p.degree.le (.ofInt 2) then return some [p]
    match remaining with
    | 0 => return none
    | remaining + 1 =>
      match (← factor settings ⟨p, ⟨[]⟩⟩).split with
      | none => return none
      | some s =>
        let quotient ← Work.ofExcept (Member.parse s.quotient)
        match ← splitPieces settings remaining quotient with
        | none => return none
        | some left =>
          let divisor ← Work.ofExcept (Member.parse s.divisor)
          match ← splitPieces settings remaining divisor with
          | none => return none
          | some right => return some (left ++ right)

def pieceInequalities (settings : Settings) (letter : String) (pieces : List Member) :
    Work (List Inequality) :=
  pieces.mapM fun piece => do
    let i ← Work.ofExcept (pieceInequality settings piece)
    Work.record (.signPiece i.piece (i.format letter))
    return i

def positivity (settings : Settings) (f : Equation) : Work SignAnalysis := do
  let p := (← Work.ofExcept f.polynomial).simplify.normalize
  if p.terms.isEmpty then
    Work.record .signIdentity
    return { status := .identity }
  match ← splitPieces settings (remainingDepth settings 0) p with
  | none =>
    Work.record (.unfactorablePolynomial p.text "sign analysis needs a full factorization")
    return { status := .unfactorable }
  | some pieces =>
    let inequalities ← pieceInequalities settings p.letter pieces
    solveInequalities inequalities p.letter

end FunctionStudy
