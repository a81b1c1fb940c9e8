import Patchbay.Gadget.Basic

/-!
Gadgets that compute with numbers.
-/

namespace Patchbay.Gadget

def numberOn (inputs : PinValues) (pin : PinName) : Except GadgetError Double :=
  match (inputs.get? pin).bind Json.asDouble? with
  | some x => .ok x
  | none => .error (.failed ("pin " ++ pin ++ " is not a number"))

/-- A sum as JSON: an integer where it has no fraction, in the signed 64-bit range, and null where it is
past the largest double. -/
def sumToJson : Option Double → Json
  | some x => if x.isIntegral then .int (clampInt64 x.toInt) else .float x
  | none => .null

def adder : Gadget :=
  ofFunction ["a", "b"] ["sum"] fun inputs _ => do
    let a ← numberOn inputs "a"
    let b ← numberOn inputs "b"
    return .singleton "sum" (sumToJson (a.add? b))

/-- The next signed 64-bit integer; after the greatest comes the least. -/
def nextInt64 (i : Int) : Int := (i + 1).bmod (Nat.pow 2 64)

/-- `out` is the integer after `in`, but at most `limit`. A fraction of `in` is dropped. -/
def increment (limit : Int) : Gadget :=
  ofFunction ["in"] ["out"] fun inputs _ => do
    let x ← numberOn inputs "in"
    return .singleton "out" (.int (min (nextInt64 (clampInt64 x.toInt)) limit))

def failing : Gadget :=
  ofFunction ["in"] ["out"] fun _ _ => .error (.failed "always fails")

end Patchbay.Gadget
