import Patchbay.Board.Basic
import Patchbay.Json.Form

/-!
The JSON form of boards and their parts. Empty sets, empty aspect lists, absent policies and null parameters
are left out; what is left out reads as empty, absent or null.
-/

namespace Patchbay

open Json JsonForm

instance : JsonForm Slot where
  encode s := mkObj <| member "requires" s.requires ++ memberUnless s.tags.isEmpty "tags" s.tags
  decode? j := do
    let f ← fields? ["requires", "tags"] j
    return { requires := ← required? f "requires", tags := ← optional? f "tags" ∅ }

instance : JsonForm Occupant where
  encode o := mkObj <|
    member "id" o.id ++ member "template" o.template ++ memberUnless o.params.isNull "params" o.params
  decode? j := do
    let f ← fields? ["id", "template", "params"] j
    return {
      id := ← required? f "id"
      template := ← required? f "template"
      params := ← optional? f "params" .null }

instance : JsonForm Pinout where
  encode p := mkObj <|
    member "inputs" p.inputs ++ member "outputs" p.outputs ++
      memberUnless p.lattices.isEmpty "lattices" p.lattices
  decode? j := do
    let f ← fields? ["inputs", "outputs", "lattices"] j
    return {
      inputs := ← optional? f "inputs" []
      outputs := ← optional? f "outputs" []
      lattices := ← optional? f "lattices" ∅ }

instance : JsonForm Endpoint where
  encode e := mkObj <|
    memberIfSome "slot" e.slot ++ memberIfSome "gadget" e.gadget ++ member "pin" e.pin
  decode? j := do
    let f ← fields? ["slot", "gadget", "pin"] j
    return {
      slot := ← optional? f "slot" none
      gadget := ← optional? f "gadget" none
      pin := ← required? f "pin" }

instance : JsonForm AspectInstance where
  encode a := mkObj <| member "aspect" a.aspect ++ memberUnless a.params.isNull "params" a.params
  decode? j := do
    let f ← fields? ["aspect", "params"] j
    return { aspect := ← required? f "aspect", params := ← optional? f "params" .null }

instance : JsonForm Wire where
  encode w := mkObj <|
    member "id" w.id ++ member "from" w.source ++ member "to" w.target ++
      memberUnless w.aspects.isEmpty "aspects" w.aspects ++
      memberUnless w.labels.isEmpty "labels" w.labels ++
      memberIfSome "policy" w.policy
  decode? j := do
    let f ← fields? ["id", "from", "to", "aspects", "labels", "policy"] j
    return {
      id := ← optional? f "id" ""
      source := ← required? f "from"
      target := ← required? f "to"
      aspects := ← optional? f "aspects" []
      labels := ← optional? f "labels" ∅
      policy := ← optional? f "policy" none }

instance : JsonForm Board where
  encode b := mkObj <|
    member "id" b.id ++ member "slots" b.slots ++ member "occupants" b.occupants ++
      member "wires" b.wires ++ member "pinouts" b.pinouts ++ memberIfSome "policy" b.policy ++
      memberUnless b.traits.isEmpty "traits" b.traits
  decode? j := do
    let f ← fields? ["id", "slots", "occupants", "wires", "pinouts", "policy", "traits"] j
    return {
      id := ← required? f "id"
      slots := ← optional? f "slots" ∅
      occupants := ← optional? f "occupants" ∅
      wires := ← optional? f "wires" []
      pinouts := ← optional? f "pinouts" ∅
      policy := ← optional? f "policy" none
      traits := ← optional? f "traits" ∅ }

end Patchbay
