import Patchbay.Json.Basic

/-!
Boards: the declared state of one network. A board declares slots, the gadgets that occupy them, the
capabilities that slots require, and wires between pins.
-/

namespace Patchbay

abbrev BoardId := String
abbrev GadgetId := String
abbrev WireId := String
abbrev AspectId := String
abbrev SlotName := String
abbrev PinName := String
abbrev TemplateName := String
abbrev LatticeName := String

/-- A requirement for a capability, with tags that realized nodes inherit. -/
structure Slot where
  requires : String
  tags : Names := ∅
  deriving BEq

/-- A gadget in a slot: its identity, the template it is made from, and the parameters it is made with. -/
structure Occupant where
  id : GadgetId
  template : TemplateName
  params : Json := .null
  deriving BEq

/-- The pins of a capability. A pin without a lattice of its own uses the default. -/
structure Pinout where
  inputs : List PinName := []
  outputs : List PinName := []
  lattices : Dict LatticeName := ∅
  deriving BEq

/-- One end of a wire: a pin of a slot's first occupant, or of a gadget. -/
structure Endpoint where
  slot : Option SlotName := none
  gadget : Option GadgetId := none
  pin : PinName := ""
  deriving BEq

structure AspectInstance where
  aspect : AspectId
  params : Json := .null
  deriving BEq

/-- A declared connection. A wire whose identity is empty is given one from its endpoints. -/
structure Wire where
  id : WireId := ""
  source : Endpoint
  target : Endpoint
  aspects : List AspectInstance := []
  labels : Names := ∅
  policy : Option Json := none
  deriving BEq

/-- The declared state of one network. -/
structure Board where
  id : BoardId
  slots : Dict Slot := ∅
  occupants : Dict (List Occupant) := ∅
  wires : List Wire := []
  pinouts : Dict Pinout := ∅
  policy : Option Json := none
  traits : Names := ∅
  deriving BEq

namespace Pinout

def hasInput (p : Pinout) (pin : PinName) : Bool := p.inputs.contains pin

def hasOutput (p : Pinout) (pin : PinName) : Bool := p.outputs.contains pin

end Pinout

namespace Endpoint

def ofSlot (slot : SlotName) (pin : PinName) : Endpoint := { slot := some slot, pin }

def ofGadget (gadget : GadgetId) (pin : PinName) : Endpoint := { gadget := some gadget, pin }

end Endpoint

namespace Board

def declarePinout (b : Board) (name : String) (p : Pinout) : Board :=
  { b with pinouts := b.pinouts.insert name p }

def declareSlot (b : Board) (name : SlotName) (pinout : String) : Board :=
  { b with slots := b.slots.insert name { requires := pinout } }

/-- The board with one more gadget in a slot, behind those already there. -/
def addOccupant (b : Board) (slot : SlotName) (o : Occupant) : Board :=
  { b with occupants := b.occupants.insert slot ((b.occupants.getD slot []) ++ [o]) }

def addWire (b : Board) (w : Wire) : Board :=
  { b with wires := b.wires ++ [w] }

def wire? (b : Board) (id : WireId) : Option Wire :=
  b.wires.find? fun w => w.id == id

/-- The gadgets on the board with the slot of each and its position there, slots in order. -/
def seats (b : Board) : List (SlotName × Nat × Occupant) :=
  b.occupants.entries.flatMap fun (slot, list) => list.mapIdx fun i o => (slot, i, o)

/-- The slot of a gadget and its position there: the first one where it occurs more than once. -/
def slotOf? (b : Board) (gadget : GadgetId) : Option (SlotName × Nat) :=
  (b.seats.find? fun (_, _, o) => o.id == gadget).map fun (slot, i, _) => (slot, i)

def occupant? (b : Board) (gadget : GadgetId) : Option Occupant :=
  (b.seats.find? fun (_, _, o) => o.id == gadget).map fun (_, _, o) => o

end Board

end Patchbay
