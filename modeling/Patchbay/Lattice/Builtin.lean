import Patchbay.Lattice.Basic
import Patchbay.Json.Printer

/-!
The lattices at hand: numeric maximum and minimum, union of arrays as sets, disjunction, and records that
join member by member. Null is the bottom of each. `append` is no lattice: it joins arrays by concatenation,
so that no join of a non-empty array leaves the value as it was.
-/

namespace Patchbay.Lattice

/-! ## Numbers -/

/-- The number of a value of a numeric carrier; null has none. -/
def numberIn (name : String) (v : Json) : Except LatticeError (Option Double) :=
  match v with
  | .null => .ok none
  | .num n =>
    match n.toDouble? with
    | some x => .ok (some x)
    | none => .error (mismatch name v)
  | _ => .error (mismatch name v)

/-- Two numbers are equivalent when their nearest doubles are equal. -/
def numbersEquivalent (a b : Json) : Bool :=
  match a, b with
  | .num m, .num n =>
    match m.toDouble?, n.toDouble? with
    | some x, some y => x.same y
    | none, none => true
    | _, _ => false
  | _, _ => a == b

/-- Null or a number; the incoming value replaces the current one when it is strictly better. Either value
is kept as it was written. -/
def numeric (name : String) (better : Double → Double → Bool) : Lattice where
  name := name
  bottom := .null
  join current incoming := do
    let c ← numberIn name current
    let i ← numberIn name incoming
    return match c, i with
      | none, _ => incoming
      | _, none => current
      | some c, some i => if better i c then incoming else current
  equivalent := numbersEquivalent

def max : Lattice := numeric "max" fun i c => c.less i

def min : Lattice := numeric "min" fun i c => i.less c

/-! ## Sets -/

/-- The elements of an array by their texts; null has none. -/
def elements (v : Json) : Except LatticeError (Dict Json) :=
  match v with
  | .null => .ok ∅
  | .arr items => .ok (Dict.ofList (items.map fun x => (x.text, x)))
  | _ => .error (mismatch "set-union" v)

/-- Arrays as sets: a join lists each element once, in the order of their texts. -/
def setUnion : Lattice where
  name := "set-union"
  bottom := .null
  join current incoming := do
    let c ← elements current
    let i ← elements incoming
    return .arr (c.union i).values
  equivalent a b :=
    match elements a, elements b with
    | .ok x, .ok y => x.keys == y.keys
    | _, _ => a == b

/-! ## Truth values -/

/-- The truth value of a value of the carrier; null is false. -/
def flag (v : Json) : Except LatticeError Bool :=
  match v with
  | .null => .ok false
  | .bool b => .ok b
  | _ => .error (mismatch "or" v)

def isTrue (v : Json) : Bool :=
  match v with
  | .bool b => b
  | _ => false

/-- Disjunction: once true, always true. The incoming value is not looked at once the current one is
true. -/
def disjunction : Lattice where
  name := "or"
  bottom := .null
  join current incoming := do
    if ← flag current then return .bool true
    else return .bool (← flag incoming)
  equivalent a b := isTrue a == isTrue b

/-! ## Records -/

/-- Joins the two values of a member that no lattice is listed for: of two that differ, the one whose text
sorts last. -/
def joinUnlisted (a b : Json) : Json :=
  if a == b then a else if b.text ≤ a.text then a else b

def joinMember (fields : Dict Lattice) (key : String) (a b : Json) : Except LatticeError Json :=
  match fields.get? key with
  | some l => l.join a b
  | none => .ok (joinUnlisted a b)

def joinMembers (fields : Dict Lattice) (current incoming : List (String × Json)) :
    Except LatticeError (List (String × Json)) :=
  incoming.foldlM (fun out (key, v) => do
    let joined ← match Entries.find? key current with
      | some existing => joinMember fields key existing v
      | none => .ok v
    return Entries.insert key joined out) current

def equivalentMember (fields : Dict Lattice) (key : String) (a b : Json) : Bool :=
  match fields.get? key with
  | some l => l.equivalent a b
  | none => a == b

/-- Objects joined member by member, a listed member by its own lattice. A member that one side lacks is
taken from the other. -/
def record (name : String) (fields : Dict Lattice) : Lattice where
  name := name
  bottom := .null
  join current incoming :=
    match current, incoming with
    | .null, _ => .ok incoming
    | _, .null => .ok current
    | .obj c, .obj i => (joinMembers fields c i).map .obj
    | .obj _, other => .error (mismatch name other)
    | other, _ => .error (mismatch name other)
  equivalent a b :=
    match a, b with
    | .obj x, .obj y =>
      x.map (·.1) == y.map (·.1) &&
        (x.zip y).all fun (p, q) => equivalentMember fields p.1 p.2 q.2
    | _, _ => a == b

/-! ## Concatenation -/

/-- The items of an array; null has none. -/
def itemsIn (v : Json) : Except LatticeError (List Json) :=
  match v with
  | .null => .ok []
  | .arr items => .ok items
  | _ => .error (mismatch "append" v)

def append : Lattice where
  name := "append"
  bottom := .null
  join current incoming := do
    let c ← itemsIn current
    let i ← itemsIn incoming
    return .arr (c ++ i)
  equivalent a b := a == b

end Patchbay.Lattice
