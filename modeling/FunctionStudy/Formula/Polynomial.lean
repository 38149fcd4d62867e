import FunctionStudy.Formula

/-! Collected formulas. A formula is collected into monomials with exact coefficients before any
value is put in: what cancels is gone, and only letters that are left can be unbound. -/

namespace FunctionStudy.Formula

/-- The exponents of a product of symbols; letters are sorted and have nonzero exponents. -/
structure Monomial where
  unknown : Rat
  euler : Rat
  imaginaryUnit : Rat
  letters : List (Char × Rat)
deriving DecidableEq

namespace Monomial

def one : Monomial := ⟨0, 0, 0, []⟩

def ofSymbol : Symbol → Monomial
  | .unknown => { one with unknown := 1 }
  | .euler => { one with euler := 1 }
  | .imaginaryUnit => { one with imaginaryUnit := 1 }
  | .letter c => { one with letters := [(c, 1)] }

/-- Multiplies by a power of one letter. -/
def insertLetter (c : Char) (e : Rat) : List (Char × Rat) → List (Char × Rat)
  | [] => [(c, e)]
  | (d, f) :: rest =>
    if c = d then (if e + f = 0 then rest else (c, e + f) :: rest)
    else if c < d then (c, e) :: (d, f) :: rest
    else (d, f) :: insertLetter c e rest

def mul (m n : Monomial) : Monomial where
  unknown := m.unknown + n.unknown
  euler := m.euler + n.euler
  imaginaryUnit := m.imaginaryUnit + n.imaginaryUnit
  letters := n.letters.foldl (fun letters (c, e) => insertLetter c e letters) m.letters

def pow (m : Monomial) (e : Rat) : Monomial :=
  ⟨m.unknown * e, m.euler * e, m.imaginaryUnit * e, m.letters.map fun (c, f) => (c, f * e)⟩

end Monomial

/-- Monomials with nonzero coefficients, each once. -/
abbrev Polynomial := List (Monomial × Rat)

namespace Polynomial

def addTerm (m : Monomial) (c : Rat) : Polynomial → Polynomial
  | [] => if c = 0 then [] else [(m, c)]
  | (n, d) :: rest =>
    if m = n then (if c + d = 0 then rest else (n, c + d) :: rest)
    else (n, d) :: addTerm m c rest

def constant (c : Rat) : Polynomial := addTerm .one c []

def add (p q : Polynomial) : Polynomial := q.foldl (fun sum (m, c) => addTerm m c sum) p

def neg (p : Polynomial) : Polynomial := p.map fun (m, c) => (m, -c)

def mul (p q : Polynomial) : Polynomial :=
  p.foldl (fun sum (m, c) => q.foldl (fun sum (n, d) => addTerm (m.mul n) (c * d) sum) sum) []

def powNat (p : Polynomial) (n : Nat) : Polynomial := Nat.repeat (mul p) n (constant 1)

def constant? : Polynomial → Option Rat
  | [] => some 0
  | [(m, c)] => if m = .one then some c else none
  | _ => none

def letters (p : Polynomial) : List Char := p.flatMap fun (m, _) => m.letters.map (·.1)

end Polynomial

/-- The outcome of collecting: a polynomial, a power outside it that holds some letters, or
nothing that has a value. -/
inductive Collected where
  | polynomial (p : Polynomial)
  | unreadPower (letters : List Char)
  | undefined
deriving DecidableEq

namespace Collected

def letters : Collected → List Char
  | .polynomial p => p.letters
  | .unreadPower letters => letters
  | .undefined => []

/-- Combines two polynomials; what is undefined stays so, and an unread part keeps all letters. -/
def combine (f : Polynomial → Polynomial → Collected) : Collected → Collected → Collected
  | .undefined, _ | _, .undefined => .undefined
  | .polynomial p, .polynomial q => f p q
  | a, b => .unreadPower (a.letters ++ b.letters)

/-- A product; of zero and anything that has a value it is zero. -/
def product : Collected → Collected → Collected
  | .undefined, _ | _, .undefined => .undefined
  | .polynomial [], _ | _, .polynomial [] => .polynomial []
  | a, b => combine (fun p q => .polynomial (p.mul q)) a b

/-- A power: any exponent on a single symbol, whole ones on numbers and sums. -/
def power (base exponent : Polynomial) : Collected :=
  let unread := .unreadPower (base.letters ++ exponent.letters)
  match exponent.constant? with
  | none => unread
  | some e =>
    if e = 0 then .polynomial (.constant 1)
    else match base with
      | [(m, 1)] => .polynomial [(m.pow e, 1)]
      | _ =>
        match base.constant? with
        | some c =>
          if e.den ≠ 1 ∨ (c = 0 ∧ e < 0) then .undefined else .polynomial (.constant (c ^ e.num))
        | none => if e.den = 1 ∧ 0 < e then .polynomial (base.powNat e.num.toNat) else unread

end Collected

def collect : Formula → Collected
  | .number value => .polynomial (.constant value)
  | .symbol s => .polynomial [(.ofSymbol s, 1)]
  | .undefined => .undefined
  | .negate f =>
    match collect f with
    | .polynomial p => .polynomial p.neg
    | other => other
  | .sum f g => Collected.combine (fun p q => .polynomial (p.add q)) (collect f) (collect g)
  | .product f g => Collected.product (collect f) (collect g)
  | .power f g => Collected.combine Collected.power (collect f) (collect g)

end FunctionStudy.Formula
