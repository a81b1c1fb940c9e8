import Patchbay.Board.Basic

/-!
Realized graphs: the nodes and edges that a board comes to. Nodes are the mounted gadgets and the shims that
aspects put on wires; edges join an output pin to an input pin.
-/

namespace Patchbay

abbrev NodeId := String
abbrev EdgeId := String
abbrev ContactId := String

def pinContact (node : NodeId) (pin : PinName) : ContactId := node ++ "." ++ pin

inductive NodeKind where
  | gadget
  | shim
  deriving DecidableEq

inductive PinDirection where
  | input
  | output
  deriving DecidableEq

/-- A pin of a node. A pin without a lattice of its own uses the default. -/
structure PinSpec where
  direction : PinDirection
  lattice : Option LatticeName := none
  deriving BEq, DecidableEq

/-- What a node comes from: an occupant of a slot, or one aspect instance of a wire, the `index`th of those
declared, with the parameters it was declared with. -/
inductive NodeOrigin where
  | occupant (slot : SlotName)
  | aspect (aspect : AspectId) (wire : WireId) (index : Nat) (params : Json)
  deriving BEq

/-- A node. Gadget nodes have a gadget and a slot, shim nodes a wire. -/
structure Node where
  id : NodeId
  kind : NodeKind
  template : TemplateName
  gadget : Option GadgetId := none
  slot : Option SlotName := none
  wire : Option WireId := none
  pins : Dict PinSpec
  tags : Names := ∅
  params : Json := .null
  origins : List NodeOrigin
  deriving BEq

/-- A directed link from a pin of one node to a pin of another, on behalf of a wire. -/
structure Edge where
  id : EdgeId
  wire : WireId
  source : NodeId
  sourcePin : PinName
  target : NodeId
  targetPin : PinName
  tags : Names := ∅
  deriving BEq, DecidableEq

/-- The realized form of a board. A wire is deferred while a slot at one of its ends is empty. -/
structure Graph where
  nodes : Dict Node := ∅
  edges : Dict Edge := ∅
  deferred : Names := ∅
  deriving BEq

namespace Node

def pinsToward (n : Node) (d : PinDirection) : List PinName :=
  (n.pins.filter fun _ spec => spec.direction = d).keys

def inputs (n : Node) : List PinName := n.pinsToward .input

def outputs (n : Node) : List PinName := n.pinsToward .output

end Node

namespace Graph

def empty : Graph := {}

def gadgetNode? (g : Graph) (gadget : GadgetId) : Option Node :=
  g.nodes.values.find? fun n => n.kind = .gadget && n.gadget == some gadget

def edgesOn (g : Graph) (wire : WireId) : List Edge :=
  g.edges.values.filter fun e => e.wire == wire

end Graph

end Patchbay
