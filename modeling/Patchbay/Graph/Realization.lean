import Patchbay.Board.Normal
import Patchbay.Board.Validity
import Patchbay.Graph.Strand

/-!
The graph that a board comes to: a node for each occupant, and a strand for each wire whose ends are both
occupied. Nothing but the board and the registry of aspects goes into it.
-/

namespace Patchbay

inductive RealizationError where
  | board (fault : BoardFault)
  | wire (wire : WireId) (fault : WireFault)
  deriving DecidableEq

def RealizationError.message : RealizationError → String
  | .board fault => "validation failed: " ++ fault.message
  | .wire id (.unknownAspect aspect) =>
    "composition failed: unknown aspect " ++ aspect ++ " on wire " ++ id
  | .wire id (.misplacedAspect aspect) =>
    "composition failed: aspect " ++ aspect ++ " cannot be attached to wire " ++ id
  | .wire id (.incompatible conflict) =>
    "incompatible aspects on wire " ++ id ++ ": " ++ conflict.message

namespace Pinout

/-- The pins of a node. One that is listed on both sides is an output. -/
def pins (p : Pinout) : Dict PinSpec :=
  let add (d : PinDirection) (acc : Dict PinSpec) (pin : PinName) : Dict PinSpec :=
    acc.insert pin ⟨d, p.lattices.get? pin⟩
  p.outputs.foldl (add .output) (p.inputs.foldl (add .input) ∅)

end Pinout

namespace Occupant

def node (o : Occupant) (naming : Naming) (slotName : SlotName) (slot : Slot) (p : Pinout) : Node where
  id := naming.gadgetNode o
  kind := .gadget
  template := o.template
  gadget := some o.id
  slot := some slotName
  pins := p.pins
  tags := slot.tags
  params := o.params
  origins := [.occupant slotName]

end Occupant

namespace Graph

def addNode (g : Graph) (n : Node) : Graph := { g with nodes := g.nodes.insert n.id n }

def addEdge (g : Graph) (e : Edge) : Graph := { g with edges := g.edges.insert e.id e }

def addStrand (g : Graph) (s : Strand) : Graph := s.shims.foldl addNode (s.edges.foldl addEdge g)

/-- Adds what a wire comes to. A wire without a strand is deferred. -/
def placeWire (g : Graph) : WireId × Option Strand → Graph
  | (_, some s) => g.addStrand s
  | (wire, none) => { g with deferred := g.deferred.add wire }

def latticeOf? (g : Graph) (node : NodeId) (pin : PinName) : Option LatticeName :=
  ((g.nodes.get? node).bind fun n => n.pins.get? pin).bind fun spec => spec.lattice

end Graph

namespace Board

def nodesIn (b : Board) (naming : Naming) (seated : SlotName × List Occupant) :
    Except BoardFault (List Node) :=
  match b.slots.get? seated.1 with
  | none => .error (.missingSlot seated.1)
  | some slot =>
    match b.pinouts.get? slot.requires with
    | none => .error (.missingPinout slot.requires)
    | some p => .ok (seated.2.map fun o => o.node naming seated.1 slot p)

def gadgetNodes (b : Board) (naming : Naming) : Except BoardFault (List Node) := do
  return (← b.occupants.entries.mapM (b.nodesIn naming)).flatten

/-- The occupant that an endpoint lands on: the gadget that it names, or the first in its slot. -/
def landing? (b : Board) (e : Endpoint) : Option Occupant :=
  match e.gadget, e.slot with
  | some gadget, _ => b.occupant? gadget
  | none, some slot => (b.occupants.getD slot []).head?
  | none, none => none

/-- The strand of a wire, given the graph of the mounted gadgets. There is none for a wire that lands on
nothing at one of its ends. -/
def strandOf? (b : Board) (r : AspectRegistry) (naming : Naming) (gadgets : Graph) (w : Wire) :
    Except RealizationError (Option Strand) :=
  match b.landing? w.source, b.landing? w.target with
  | some source, some target => do
    let node := naming.gadgetNode source
    let lattice := gadgets.latticeOf? node w.source.pin
    let strand ← (Strand.ofWire r naming w lattice node (naming.gadgetNode target)).mapError (.wire w.id)
    return some strand
  | _, _ => .ok none

def realize (b : Board) (r : AspectRegistry) (naming : Naming) : Except RealizationError Graph := do
  let nodes ← (b.gadgetNodes naming).mapError .board
  let gadgets := nodes.foldl Graph.addNode .empty
  let strands ← b.wires.mapM fun w => do return (w.id, ← b.strandOf? r naming gadgets w)
  return strands.foldl Graph.placeWire gadgets

end Board

end Patchbay
