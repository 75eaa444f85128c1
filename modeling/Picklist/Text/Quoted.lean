/-
# Quoted text in messages

How messages and listings quote a text: between double quotes, with the usual short
escapes for a few characters, and a numbered escape for every other character that does
not show.
-/
import Picklist.Text.Hex
import Picklist.Text.Visible

namespace Picklist

/-- How a character stands inside a quoted text. -/
def quotedChar (c : Char) : String :=
  if c.toNat = 0 then "\\0"
  else if c = '\t' then "\\t"
  else if c = '\r' then "\\r"
  else if c = '\n' then "\\n"
  else if c = '"' then "\\\""
  else if c = '\\' then "\\\\"
  else if isVisible c then String.singleton c
  else "\\u\x7b" ++ String.ofList (Hex.digits c.toNat) ++ "\x7d"

/-- The text between double quotes. -/
def quoted (s : String) : String :=
  "\"" ++ String.join (s.toList.map quotedChar) ++ "\""

end Picklist
