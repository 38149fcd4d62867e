import FunctionStudy.Data

/-! Tables of synthetic division. The three rows of dividing a polynomial by `x - root`, as doubles. -/

namespace FunctionStudy

structure RuffiniTable where
  coefficients : List Binary64
  root : Binary64
  products : List Binary64
  sums : List Binary64
deriving DecidableEq

namespace RuffiniTable

/-- All sums but the last are the coefficients of the quotient. -/
def quotient (t : RuffiniTable) : List Binary64 := t.sums.dropLast

def remainder? (t : RuffiniTable) : Option Binary64 := t.sums.getLast?

def toData (t : RuffiniTable) : Data :=
  .record [("coefficients", .floats t.coefficients), ("root", .float t.root),
    ("products", .floats t.products), ("sums", .floats t.sums)]

end RuffiniTable
end FunctionStudy
