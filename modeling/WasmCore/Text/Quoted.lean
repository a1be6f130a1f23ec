import WasmCore.Text.Hex
import WasmCore.Text.Unprintable

/-!
# Quoted text

Names inside messages stand between double quotes. Quotes and backslashes get a backslash in front,
the common controls have a letter each, and every other character that cannot be shown is written
as its code point.
-/

namespace WasmCore.Text

/-- A character as it stands between quotes. -/
def escape (c : Char) : String :=
  if c = '"' then "\\\""
  else if c = '\\' then "\\\\"
  else if c = '\n' then "\\n"
  else if c = '\r' then "\\r"
  else if c = '\t' then "\\t"
  else if c.toNat = 0 then "\\0"
  else if isUnprintable c then "\\u\x7b" ++ Hex.lower c.toNat ++ "\x7d"
  else c.toString

/-- A text between quotes. -/
def quote (s : String) : String := "\"" ++ String.join (s.toList.map escape) ++ "\""

end WasmCore.Text
