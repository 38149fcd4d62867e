import FunctionStudy.Data

/-! Data as JSON text. One line, with a blank after each comma and colon, keys in their order, and
every character beyond ASCII as its UTF-16 escapes. Numbers that are not finite are written by name. -/

namespace FunctionStudy.Data

def unitEscape (unit : Nat) : String := "\\u" ++ Text.hex 4 unit

def escapeChar (c : Char) : String :=
  if c = '"' then "\\\""
  else if c = '\\' then "\\\\"
  else if c = '\n' then "\\n"
  else if c = '\r' then "\\r"
  else if c = '\t' then "\\t"
  else if c = '\x08' then "\\b"
  else if c = '\x0c' then "\\f"
  else if c.toNat < 0x20 then unitEscape c.toNat
  else if c.toNat < 0x7f then c.toString
  else if c.toNat < 0x10000 then unitEscape c.toNat
  else
    let above := c.toNat - 0x10000
    unitEscape (0xd800 + above / 0x400) ++ unitEscape (0xdc00 + above % 0x400)

def jsonString (s : String) : String :=
  "\"" ++ String.join (s.toList.map escapeChar) ++ "\""

def jsonNumber : Binary64 → String
  | .nan => "NaN"
  | .inf negative => if negative then "-Infinity" else "Infinity"
  | x => Decimal.shortestText x

mutual

def toJson : Data → String
  | .null => "null"
  | .bool b => if b then "true" else "false"
  | .int n => toString n
  | .float x => jsonNumber x
  | .text s => jsonString s
  | .timestamp t => jsonString t.text
  | .list items | .tuple items => "[" ++ ", ".intercalate (jsonItems items) ++ "]"
  | .map entries => "\x7b" ++ ", ".intercalate (jsonEntries entries) ++ "\x7d"

def jsonItems : List Data → List String
  | [] => []
  | d :: rest => d.toJson :: jsonItems rest

def jsonEntries : List (Data × Data) → List String
  | [] => []
  | (key, d) :: rest => (jsonString key.toText ++ ": " ++ d.toJson) :: jsonEntries rest

end

end FunctionStudy.Data
