import FunctionStudy.Binary64

/-! Arithmetic and order on doubles. Each operation is exact on the rationals and rounded once.
Comparison is numeric: the two zeros are equal and a value that is not a number is neither equal to
nor ordered with anything. -/

namespace FunctionStudy.Binary64

def signedZero (negative : Bool) : Binary64 := if negative then .negZero else zero

def neg : Binary64 → Binary64
  | .nan => .nan
  | .inf negative => .inf (!negative)
  | .negZero => zero
  | .finite v h => if v = 0 then .negZero else .finite (-v) h.neg

def abs (x : Binary64) : Binary64 := if x.isNegative then x.neg else x

/-- An exact zero sum is positive unless both summands are negative zeros. -/
def add : Binary64 → Binary64 → Binary64
  | .nan, _ => .nan
  | _, .nan => .nan
  | .inf s, .inf t => if s = t then .inf s else .nan
  | .inf s, _ => .inf s
  | _, .inf t => .inf t
  | .negZero, .negZero => .negZero
  | x, y => round (x.toRat + y.toRat)

def sub (x y : Binary64) : Binary64 := x.add y.neg

def mul (x y : Binary64) : Binary64 :=
  let negative := x.isNegative != y.isNegative
  match x.toRat?, y.toRat? with
  | some a, some b => if a * b = 0 then signedZero negative else round (a * b)
  | some a, none => if y.isNaN ∨ a = 0 then .nan else .inf negative
  | none, some b => if x.isNaN ∨ b = 0 then .nan else .inf negative
  | none, none => if x.isNaN ∨ y.isNaN then .nan else .inf negative

def div? (x y : Binary64) : Option Binary64 :=
  let negative := x.isNegative != y.isNegative
  match x.toRat?, y.toRat? with
  | some a, some b =>
    if b = 0 then none
    else if a = 0 then some (signedZero negative)
    else some (round (a / b))
  | some _, none => some (if y.isNaN then .nan else signedZero negative)
  | none, some b =>
    if b = 0 then none
    else some (if x.isNaN then .nan else .inf negative)
  | none, none => some .nan

/-- Adding the positive zero turns a negative zero positive and keeps every other value. -/
def unsignedZero (x : Binary64) : Binary64 := x.add zero

def lt : Binary64 → Binary64 → Bool
  | .nan, _ => false
  | _, .nan => false
  | .inf s, .inf t => s && !t
  | .inf s, _ => s
  | _, .inf t => !t
  | x, y => x.toRat < y.toRat

def same : Binary64 → Binary64 → Bool
  | .nan, _ => false
  | _, .nan => false
  | .inf s, .inf t => s == t
  | .inf _, _ => false
  | _, .inf _ => false
  | x, y => x.toRat = y.toRat

def le (x y : Binary64) : Bool := x.lt y || x.same y

def isZero (x : Binary64) : Bool := x.toRat? = some 0

def isPositive (x : Binary64) : Bool := zero.lt x

/-- The larger of two; the first one unless the second is greater. -/
def max (x y : Binary64) : Binary64 := if x.lt y then y else x

/-- The double of an integer, or nothing when the integer is too large for one. -/
def ofInt? (n : Int) : Option Binary64 :=
  if (ofInt n).isFinite then some (ofInt n) else none

def sum (xs : List Binary64) : Binary64 := xs.foldl add zero

/-- Ascending order; equal values, and values that are not numbers, keep their places. -/
def sortAscending (xs : List Binary64) : List Binary64 :=
  xs.mergeSort fun x y => !(y.lt x)

/-- Drops every value numerically equal to an earlier one. -/
def distinct : List Binary64 → List Binary64
  | [] => []
  | x :: xs => x :: (distinct xs).filter fun y => !(x.same y)

theorem mem_sortAscending {x : Binary64} {xs : List Binary64} : x ∈ sortAscending xs ↔ x ∈ xs :=
  List.mem_mergeSort

theorem distinct_sublist (xs : List Binary64) : (distinct xs).Sublist xs := by
  induction xs with
  | nil => exact .slnil
  | cons y xs ih => exact (List.filter_sublist.trans ih).cons_cons y

theorem mem_of_mem_distinct {x : Binary64} {xs : List Binary64} (h : x ∈ distinct xs) : x ∈ xs :=
  (distinct_sublist xs).subset h

end FunctionStudy.Binary64
