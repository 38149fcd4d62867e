import FunctionStudy.Text.Printable

/-! Quoted text in messages. A text is shown between single quotes, or between double quotes when it
holds a single quote and no double one; the quote in use, backslashes and unprintable characters are
escaped. -/

namespace FunctionStudy.Text

/-- The lower-case hexadecimal digits of `n`, at least `width` of them. -/
def hex (width n : Nat) : String :=
  let digits := Nat.toDigits 16 n
  String.ofList (List.replicate (width - digits.length) '0' ++ digits)

def escape (quote c : Char) : String :=
  if c = '\\' then "\\\\"
  else if c = '\n' then "\\n"
  else if c = '\r' then "\\r"
  else if c = '\t' then "\\t"
  else if c = quote then "\\" ++ c.toString
  else if isPrintable c then c.toString
  else if c.toNat < 0x100 then "\\x" ++ hex 2 c.toNat
  else if c.toNat < 0x10000 then "\\u" ++ hex 4 c.toNat
  else "\\U" ++ hex 8 c.toNat

def quoted (text : String) : String :=
  let cs := text.toList
  let quote := if cs.contains '\'' && !cs.contains '"' then '"' else '\''
  quote.toString ++ String.join (cs.map (escape quote)) ++ quote.toString

end FunctionStudy.Text
