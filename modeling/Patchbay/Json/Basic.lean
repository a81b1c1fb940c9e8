import Patchbay.Dict
import Patchbay.Number.Double

/-!
JSON values. An object keeps its members in ascending key order, and a number is an integer or a double:
the integer three and the double three are different values.
-/

namespace Patchbay

inductive Number where
  | int (i : Int)
  | float (x : Double)
  deriving DecidableEq

namespace Number

/-- Equality of numbers: an integer is never a double, and the two zeros among the doubles are equal. -/
def same : Number → Number → Bool
  | .int i, .int j => i == j
  | .float x, .float y => x.same y
  | _, _ => false

def toDouble? : Number → Option Double
  | .int i => Double.ofInt? i
  | .float x => some x

end Number

/-- A JSON value. The members of an object stand in ascending key order. -/
inductive Json where
  | null
  | bool (b : Bool)
  | num (n : Number)
  | str (s : String)
  | arr (items : List Json)
  | obj (members : List (String × Json))

namespace Json

instance : Inhabited Json := ⟨null⟩

mutual

/-- Equality of values: member by member, numbers by `Number.same`. -/
def same : Json → Json → Bool
  | .null, .null => true
  | .bool a, .bool b => a == b
  | .num m, .num n => m.same n
  | .str s, .str t => s == t
  | .arr xs, .arr ys => sameItems xs ys
  | .obj xs, .obj ys => sameMembers xs ys
  | _, _ => false

def sameItems : List Json → List Json → Bool
  | [], [] => true
  | x :: xs, y :: ys => same x y && sameItems xs ys
  | _, _ => false

def sameMembers : List (String × Json) → List (String × Json) → Bool
  | [], [] => true
  | (k, x) :: xs, (l, y) :: ys => k == l && same x y && sameMembers xs ys
  | _, _ => false

end

instance : BEq Json := ⟨same⟩

def int (i : Int) : Json := .num (.int i)

def nat (n : Nat) : Json := .num (.int n)

def float (x : Double) : Json := .num (.float x)

def ofDouble? : Option Double → Json
  | some x => float x
  | none => .null

def ofDict (d : Dict Json) : Json := .obj d.entries

/-- An object with the given members; of two under one key the later one stays. -/
def mkObj (members : List (String × Json)) : Json := ofDict (Dict.ofList members)

def strings (l : List String) : Json := .arr (l.map .str)

def typeName : Json → String
  | .null => "null"
  | .bool _ => "boolean"
  | .num _ => "number"
  | .str _ => "string"
  | .arr _ => "array"
  | .obj _ => "object"

def isNull : Json → Bool
  | .null => true
  | _ => false

theorem isNull_iff {v : Json} : v.isNull = true ↔ v = .null := by
  cases v <;> simp [isNull]

def isObj : Json → Bool
  | .obj _ => true
  | _ => false

def get? (k : String) : Json → Option Json
  | .obj members => Entries.find? k members
  | _ => none

def asString? : Json → Option String
  | .str s => some s
  | _ => none

def asBool? : Json → Option Bool
  | .bool b => some b
  | _ => none

def asItems? : Json → Option (List Json)
  | .arr items => some items
  | _ => none

def asDict? : Json → Option (Dict Json)
  | .obj members => some (Dict.ofList members)
  | _ => none

def asDouble? : Json → Option Double
  | .num n => n.toDouble?
  | _ => none

/-- An integer in the signed 64-bit range. -/
def asInt64? : Json → Option Int
  | .num (.int i) => if minInt64 ≤ i ∧ i ≤ maxInt64 then some i else none
  | _ => none

/-- An integer in the unsigned 64-bit range. -/
def asNat64? : Json → Option Nat
  | .num (.int i) => if 0 ≤ i ∧ i ≤ maxNat64 then some i.toNat else none
  | _ => none

end Json

end Patchbay
