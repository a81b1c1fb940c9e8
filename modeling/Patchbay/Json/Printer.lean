import Patchbay.Json.Basic
import Patchbay.Number.Decimal

/-!
The compact text of a JSON value: no spaces, members in key order, the shortest digits that read back.
-/

namespace Patchbay

/-- How a decimal is laid out: the leading exponents that are written with a point alone. All others are
written as one digit, a point and the rest, and a signed power of ten. -/
structure DecimalLayout where
  leastPlain : Int
  greatestPlain : Int

namespace DecimalLayout

/-- The text of a decimal. A number written with a point alone has at least one digit after it. -/
def text (l : DecimalLayout) (x : Decimal) : String :=
  let digits := (Nat.repr x.coeff).toList
  let e := x.exp + digits.length - 1
  let zeros (n : Nat) : List Char := List.replicate n '0'
  let body :=
    if e < l.leastPlain ∨ l.greatestPlain < e then
      let tail := digits.drop 1
      digits.take 1 ++ (if tail.isEmpty then [] else '.' :: tail) ++
        'e' :: (if e < 0 then '-' else '+') :: (Nat.repr e.natAbs).toList
    else if e < 0 then '0' :: '.' :: zeros (-e - 1).toNat ++ digits
    else
      let n := e.toNat + 1
      let part := digits.drop n
      digits.take n ++ zeros (n - digits.length) ++ '.' :: if part.isEmpty then ['0'] else part
  String.ofList (if x.neg then '-' :: body else body)

end DecimalLayout

namespace Json

/-- Doubles from `1e-5` up to below `1e16` are written with a point alone. -/
def decimalLayout : DecimalLayout := ⟨-5, 15⟩

def numberText : Number → String
  | .int i => toString i
  | .float x => decimalLayout.text x.shortest

def hexDigit (n : Nat) : Char :=
  Nat.digitChar (n % 16)

def escapeChar (c : Char) : String :=
  if c = '"' then "\\\""
  else if c = '\\' then "\\\\"
  else if c = '\x08' then "\\b"
  else if c = '\x0c' then "\\f"
  else if c = '\n' then "\\n"
  else if c = '\r' then "\\r"
  else if c = '\t' then "\\t"
  else if c.toNat < 32 then
    "\\u00" ++ String.ofList [hexDigit (c.toNat / 16), hexDigit c.toNat]
  else String.singleton c

/-- A string between quotes, its quotes, backslashes and control characters escaped. -/
def quote (s : String) : String :=
  "\"" ++ String.join (s.toList.map escapeChar) ++ "\""

mutual

def text : Json → String
  | .null => "null"
  | .bool b => if b then "true" else "false"
  | .num n => numberText n
  | .str s => quote s
  | .arr items => "[" ++ ",".intercalate (itemTexts items) ++ "]"
  | .obj members => "\x7b" ++ ",".intercalate (memberTexts members) ++ "\x7d"

def itemTexts : List Json → List String
  | [] => []
  | v :: rest => text v :: itemTexts rest

def memberTexts : List (String × Json) → List String
  | [] => []
  | (k, v) :: rest => (quote k ++ ":" ++ text v) :: memberTexts rest

end

end Json

end Patchbay
