import Patchbay.Graph.Diff
import Patchbay.Json.Form

/-!
The JSON form of graphs, their parts and their differences.
-/

namespace Patchbay

open Json JsonForm

instance : JsonForm NodeKind where
  encode
    | .gadget => .str "gadget"
    | .shim => .str "shim"
  decode? j := do
    match ← choice? ["gadget", "shim"] j with
    | "gadget" => return .gadget
    | _ => return .shim

instance : JsonForm PinDirection where
  encode
    | .input => .str "input"
    | .output => .str "output"
  decode? j := do
    match ← choice? ["input", "output"] j with
    | "input" => return .input
    | _ => return .output

instance : JsonForm PinSpec where
  encode p := mkObj <| member "direction" p.direction ++ memberIfSome "lattice" p.lattice
  decode? j := do
    let f ← fields? ["direction", "lattice"] j
    return { direction := ← required? f "direction", lattice := ← optional? f "lattice" none }

instance : JsonForm NodeOrigin where
  encode
    | .occupant slot => mkObj <| member "source" "occupant" ++ member "slot" slot
    | .aspect aspect wire index params => mkObj <|
      member "source" "aspect" ++ member "aspect" aspect ++ member "wire" wire ++
        member "index" index ++ memberUnless params.isNull "params" params
  decode? j := do
    match ← tagged? false "source" ["occupant", "aspect"] j with
    | ("occupant", rest) =>
      let f ← fields? ["slot"] rest
      return .occupant (← required? f "slot")
    | (_, rest) =>
      let f ← fields? ["aspect", "wire", "index", "params"] rest
      return .aspect (← required? f "aspect") (← required? f "wire") (← required? f "index")
        (← optional? f "params" .null)

instance : JsonForm Node where
  encode n := mkObj <|
    member "id" n.id ++ member "kind" n.kind ++ member "template" n.template ++
      memberIfSome "gadget" n.gadget ++ memberIfSome "slot" n.slot ++ memberIfSome "wire" n.wire ++
      member "pins" n.pins ++ memberUnless n.tags.isEmpty "tags" n.tags ++
      memberUnless n.params.isNull "params" n.params ++ member "prov" n.origins
  decode? j := do
    let f ← fields?
      ["id", "kind", "template", "gadget", "slot", "wire", "pins", "tags", "params", "prov"] j
    return {
      id := ← required? f "id"
      kind := ← required? f "kind"
      template := ← required? f "template"
      gadget := ← optional? f "gadget" none
      slot := ← optional? f "slot" none
      wire := ← optional? f "wire" none
      pins := ← required? f "pins"
      tags := ← optional? f "tags" ∅
      params := ← optional? f "params" .null
      origins := ← required? f "prov" }

instance : JsonForm Edge where
  encode e := mkObj <|
    member "id" e.id ++ member "wire" e.wire ++ member "from" e.source ++
      member "from_pin" e.sourcePin ++ member "to" e.target ++ member "to_pin" e.targetPin ++
      memberUnless e.tags.isEmpty "tags" e.tags
  decode? j := do
    let f ← fields? ["id", "wire", "from", "from_pin", "to", "to_pin", "tags"] j
    return {
      id := ← required? f "id"
      wire := ← required? f "wire"
      source := ← required? f "from"
      sourcePin := ← required? f "from_pin"
      target := ← required? f "to"
      targetPin := ← required? f "to_pin"
      tags := ← optional? f "tags" ∅ }

instance : JsonForm Graph where
  encode g := mkObj <|
    member "nodes" g.nodes ++ member "edges" g.edges ++
      memberUnless g.deferred.isEmpty "deferred" g.deferred
  decode? j := do
    let f ← fields? ["nodes", "edges", "deferred"] j
    return {
      nodes := ← required? f "nodes"
      edges := ← required? f "edges"
      deferred := ← optional? f "deferred" ∅ }

namespace GraphDiff

def parts : GraphDiff → String × String
  | .addNode id => ("add_node", id)
  | .removeNode id => ("remove_node", id)
  | .addEdge id => ("add_edge", id)
  | .removeEdge id => ("remove_edge", id)

def ofParts? : String × String → Option GraphDiff
  | ("add_node", id) => some (.addNode id)
  | ("remove_node", id) => some (.removeNode id)
  | ("add_edge", id) => some (.addEdge id)
  | ("remove_edge", id) => some (.removeEdge id)
  | _ => none

end GraphDiff

/-- A step is written as an object of two members, and may be read from an array of the two. In an array
only a string will do for what the step does. -/
instance : JsonForm GraphDiff where
  encode d := mkObj <| member "op" d.parts.1 ++ member "id" d.parts.2
  decode? j := do
    let names := ["add_node", "remove_node", "add_edge", "remove_edge"]
    let (op, id) ← match j with
      | .obj members => do
        pure (← choice? names (← Entries.find? "op" members), ← Entries.find? "id" members)
      | .arr [op, id] => do pure (← alternative? false names op, id)
      | _ => none
    GraphDiff.ofParts? (op, ← decode? id)

end Patchbay
