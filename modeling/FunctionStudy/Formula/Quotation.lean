import FunctionStudy.Text.Blank

/-! Quoted texts. A prime mark after one of the letters b, f, r and u opens a quotation, and the
next mark closes it. A text of quotations alone is no formula but their joint content. -/

namespace FunctionStudy.Formula

inductive Quotation where
  | bytes
  | characters
deriving DecidableEq

namespace Quotation

def name : Quotation → String
  | .bytes => "bytes"
  | .characters => "str"

/-- The kind that the letters before the opening mark ask for, in either case. -/
def ofLetters? (letters : List Char) : Option Quotation :=
  match letters.map Char.toLower with
  | [] | ['r'] | ['u'] | ['f'] | ['r', 'f'] | ['f', 'r'] => some .characters
  | ['b'] | ['b', 'r'] | ['r', 'b'] => some .bytes
  | _ => none

/-- What follows the closing mark, which must stand on the same line. -/
def afterMark? : List Char → Option (List Char)
  | [] | '\n' :: _ => none
  | '\'' :: rest => some rest
  | _ :: rest => afterMark? rest

def afterThree? : List Char → Option (List Char)
  | [] => none
  | '\'' :: '\'' :: '\'' :: rest => some rest
  | _ :: rest => afterThree? rest

/-- The quotation at the front of a text, and what follows it. -/
def read? (cs : List Char) : Option (Quotation × List Char) := do
  let kind ← ofLetters? (cs.takeWhile Char.isAlpha)
  match cs.dropWhile Char.isAlpha with
  | '\'' :: '\'' :: '\'' :: rest => return (kind, ← afterThree? rest)
  | '\'' :: rest => return (kind, ← afterMark? rest)
  | _ => none

/-- Quotations of one kind, next to each other or added, at most `fuel` of them. -/
def joined? : Nat → List Char → Option Quotation
  | 0, _ => none
  | fuel + 1, cs => do
    let (kind, rest) ← read? cs
    let others ← match rest with
      | [] => some kind
      | '+' :: rest => joined? fuel rest
      | rest => joined? fuel rest
    if others = kind then some kind else none

end Quotation

/-- The kind of a text that is all quotation. -/
def quotation? (text : String) : Option Quotation :=
  Quotation.joined? text.length (Text.trimBlanks text.toList)

example : quotation? "b'^2-b'" = some .bytes := by decide +kernel
example : quotation? "b'+x'+r'-c'" = none := by decide +kernel

end FunctionStudy.Formula
