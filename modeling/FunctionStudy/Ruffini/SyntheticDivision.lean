import FunctionStudy.Number

/-! Synthetic division. Dividing a dense polynomial, highest coefficient first, by `x - root`: each
sum is the next coefficient plus the root times the sum before it. -/

namespace FunctionStudy

def denseValue (coefficients : List Rat) (x : Rat) : Rat :=
  match coefficients with
  | [] => 0
  | c :: rest => c * x ^ rest.length + denseValue rest x

def sumsAfter (root sum : Rat) : List Rat → List Rat
  | [] => [sum]
  | c :: rest => sum :: sumsAfter root (c + sum * root) rest

structure Division where
  products : List Rat
  sums : List Rat
deriving DecidableEq

/-- Divides exact coefficients; the first one starts the sums. -/
def divideSynthetically (first : Rat) (others : List Rat) (root : Rat) : Division :=
  let sums := sumsAfter root first others
  ⟨sums.dropLast.map (· * root), sums⟩

/-- Divides a polynomial given by its coefficients, of which there must be one at least. -/
def syntheticDivision (coefficients : List Number) (root : Number) : Except Error Division := do
  let r ← root.toRat
  match ← coefficients.mapM Number.toRat with
  | [] => throw .indexOutOfRange
  | first :: others => return divideSynthetically first others r

@[simp] theorem length_sumsAfter (root sum : Rat) (cs : List Rat) :
    (sumsAfter root sum cs).length = cs.length + 1 := by
  induction cs generalizing sum with
  | nil => rfl
  | cons c rest ih => simp [sumsAfter, ih]

end FunctionStudy
