import FunctionStudy.Work
import FunctionStudy.Equation

/-! Parity. A function is even when its collected terms are those of `f(-x)`, and odd when they are
the opposites of them. A function with a fractional exponent is neither. -/

namespace FunctionStudy

/-- Whether every exponent is an integer; an infinite one is an error unless a fractional one comes
first. -/
def allExponentsWhole : List Term → Except Error Bool
  | [] => .ok true
  | t :: rest => do
    let _ ← t.exponent.toInt
    if t.exponent.isIntegral then allExponentsWhole rest else return false

/-- The term of `f(-x)`: odd exponents change the sign. -/
def Term.reflected (t : Term) : Term :=
  if t.exponent.toRat.num % 2 = 0 then t else t.negated

def Member.reflected (m : Member) : Member := ⟨m.terms.map Term.reflected⟩

def parityOf (p : Member) : Except Error ParityResult := do
  let whole ← allExponentsWhole p.terms
  return {
    function := p.text
    opposite := p.negated.text
    reflected := if whole then p.reflected.text else ""
    isEven := whole && p.reflected.sameCanonical p
    isOdd := whole && p.reflected.sameCanonical p.negated }

def parity (f : Equation) : Work ParityResult := do
  let result ← Work.ofExcept (f.polynomial >>= parityOf)
  Work.record (.parity result)
  return result

end FunctionStudy
