import Patchbay.Text.Visible

/-!
Text for diagnostics: strings between quotes with their hidden characters escaped, and bracketed lists.
-/

namespace Patchbay.Quoted

/-- One character within a quoted string. Hidden characters other than the usual four are written by their
number in hexadecimal digits. -/
def escape (c : Char) : String :=
  if c = '"' then "\\\""
  else if c = '\\' then "\\\\"
  else if c = '\n' then "\\n"
  else if c = '\t' then "\\t"
  else if c = '\r' then "\\r"
  else if c.toNat = 0 then "\\0"
  else if Visible.hidden c then
    "\\u\x7b" ++ String.ofList (Nat.toDigits 16 c.toNat) ++ "\x7d"
  else String.singleton c

def string (s : String) : String :=
  "\"" ++ String.join (s.toList.map escape) ++ "\""

def list (items : List String) : String :=
  "[" ++ ", ".intercalate items ++ "]"

def wrapped (name value : String) : String :=
  name ++ "(" ++ value ++ ")"

end Patchbay.Quoted
