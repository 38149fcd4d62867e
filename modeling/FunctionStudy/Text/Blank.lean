/-! Blank characters. The characters that count as space between and around tokens: the ASCII
controls of layout and separation, the next-line mark, and the Unicode spaces. Zero-width characters
are not blank. -/

namespace FunctionStudy.Text

def blankRanges : List (Nat × Nat) :=
  [(0x9, 0xd), (0x1c, 0x20), (0x85, 0x85), (0xa0, 0xa0), (0x1680, 0x1680), (0x2000, 0x200a),
   (0x2028, 0x2029), (0x202f, 0x202f), (0x205f, 0x205f), (0x3000, 0x3000)]

def isBlank (c : Char) : Bool :=
  blankRanges.any fun (first, last) => first ≤ c.toNat && c.toNat ≤ last

def stripBlanks (text : String) : String :=
  String.ofList (text.toList.filter fun c => !isBlank c)

/-- The characters between the first and the last one outside a class. -/
def trim (isDropped : Char → Bool) (cs : List Char) : List Char :=
  ((cs.dropWhile isDropped).reverse.dropWhile isDropped).reverse

def trimBlanks (cs : List Char) : List Char := trim isBlank cs

/-- Blanks that may stand around a number: all but the ASCII separators. -/
def isPadding (c : Char) : Bool := isBlank c && !(0x1c ≤ c.toNat && c.toNat ≤ 0x1f)

@[simp] theorem toList_stripBlanks (text : String) :
    (stripBlanks text).toList = text.toList.filter fun c => !isBlank c := by
  simp [stripBlanks]

end FunctionStudy.Text
