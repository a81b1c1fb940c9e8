import Patchbay.Plan.Basic
import Patchbay.Board.Form

/-!
The JSON form of plans. A plan is one object that holds the edit's fields beside its own.
-/

namespace Patchbay

open Json JsonForm

namespace EndpointShape

def name : EndpointShape → String
  | .slot => "slot"
  | .gadget => "gadget"
  | .any => "any"

def ofName? : String → Option EndpointShape
  | "slot" => some .slot
  | "gadget" => some .gadget
  | "any" => some .any
  | _ => none

end EndpointShape

instance : JsonForm EndpointShape where
  encode s := .str s.name
  decode? j := do EndpointShape.ofName? (← choice? ["slot", "gadget", "any"] j)

namespace WireSelector

/-- The name of a shape within a selector: the member of an object that names it may also be an empty
object. -/
def shapeName : Json → Json
  | .obj [(k, .obj [])] => .str k
  | j => j

/-- Reads a selector. Within a plan its alternative may be given by number. -/
def ofJson? (numbered : Bool) (j : Json) : Option WireSelector := do
  match ← tagged? numbered "by" ["tag", "shape", "has_aspect"] j with
  | ("tag", rest) =>
    let f ← fields? ["tag"] rest
    return .tag (← required? f "tag")
  | ("shape", rest) =>
    let f ← fields? ["from", "to"] rest
    let f := f.map fun (k, v) => (k, shapeName v)
    return .shape (← required? f "from") (← required? f "to")
  | (_, rest) =>
    let f ← fields? ["aspect"] rest
    return .hasAspect (← required? f "aspect")

end WireSelector

instance : JsonForm WireSelector where
  encode
    | .tag label => mkObj <| member "by" "tag" ++ member "tag" label
    | .shape source target =>
      mkObj <| member "by" "shape" ++ member "from" source ++ member "to" target
    | .hasAspect aspect => mkObj <| member "by" "has_aspect" ++ member "aspect" aspect
  decode? := WireSelector.ofJson? false

instance : JsonForm WirePatch where
  encode p := mkObj <|
    memberIfSome "aspects" p.aspects ++ memberIfSome "labels" p.labels ++
      memberIfSome "policy" p.policy
  decode? j := do
    let f ← fields? ["aspects", "labels", "policy"] j
    return {
      aspects := ← optional? f "aspects" none
      labels := ← optional? f "labels" none
      policy := ← optional? f "policy" none }

namespace BoardEdit

def names : List String :=
  ["add_wire", "update_wire", "weave_wires", "remove_wire", "mount_gadget", "unmount_gadget"]

def members : BoardEdit → List (String × Json)
  | .addWire wire => member "op" "add_wire" ++ member "wire" wire
  | .updateWire id patch => member "op" "update_wire" ++ member "id" id ++ member "patch" patch
  | .weaveWires selector aspect =>
    member "op" "weave_wires" ++ member "selector" selector ++ member "aspect" aspect
  | .removeWire id => member "op" "remove_wire" ++ member "id" id
  | .mountGadget slot occupant =>
    member "op" "mount_gadget" ++ member "slot" slot ++ member "occupant" occupant
  | .unmountGadget gadget => member "op" "unmount_gadget" ++ member "gadget" gadget

/-- Reads an edit from the members of an object. Its alternative may be given by number. -/
def ofMembers? (f : List (String × Json)) : Option BoardEdit := do
  match ← alternative? true names (← Entries.find? "op" f) with
  | "add_wire" => return .addWire (← required? f "wire")
  | "update_wire" => return .updateWire (← required? f "id") (← required? f "patch")
  | "weave_wires" =>
    let selector ← WireSelector.ofJson? true (← Entries.find? "selector" f)
    return .weaveWires selector (← required? f "aspect")
  | "remove_wire" => return .removeWire (← required? f "id")
  | "mount_gadget" => return .mountGadget (← required? f "slot") (← required? f "occupant")
  | _ => return .unmountGadget (← required? f "gadget")

end BoardEdit

instance : JsonForm Plan where
  encode p := mkObj <| p.edit.members ++ member "by" p.principal ++ member "reason" p.reason
  decode?
    | .obj f => do
      return {
        edit := ← BoardEdit.ofMembers? f
        principal := ← optional? f "by" ""
        reason := ← optional? f "reason" "" }
    | _ => none

end Patchbay
