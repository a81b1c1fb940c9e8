import Patchbay.Board.Basic

/-!
Which boards are valid: slots require pinouts that exist, gadgets and wires are declared once, and a wire
leads from an output pin to an input pin.
-/

namespace Patchbay

inductive BoardFault where
  | slotWithoutPinout (slot : SlotName) (pinout : String)
  | strayOccupants (slot : SlotName)
  | repeatedGadget (id : GadgetId)
  | repeatedWire (id : WireId)
  | ambiguousEndpoint (wire : WireId)
  | unknownGadget (wire : WireId) (gadget : GadgetId)
  | unknownSlot (wire : WireId) (slot : SlotName)
  | unknownPinout (wire : WireId) (pinout : String)
  | notOutput (wire : WireId) (pin : PinName)
  | notInput (wire : WireId) (pin : PinName)
  | missingSlot (slot : SlotName)
  | missingPinout (pinout : String)
  deriving DecidableEq

def BoardFault.message : BoardFault → String
  | .slotWithoutPinout slot pinout => "slot " ++ slot ++ " requires unknown pinout " ++ pinout
  | .strayOccupants slot => "occupants declared for unknown slot " ++ slot
  | .repeatedGadget id => "duplicate gadget id " ++ id
  | .repeatedWire id => "duplicate wire id " ++ id
  | .ambiguousEndpoint wire => "wire " ++ wire ++ ": endpoint must name exactly one of slot or gadget"
  | .unknownGadget wire gadget => "wire " ++ wire ++ ": unknown gadget " ++ gadget
  | .unknownSlot wire slot => "wire " ++ wire ++ ": unknown slot " ++ slot
  | .unknownPinout wire pinout => "wire " ++ wire ++ ": unknown pinout " ++ pinout
  | .notOutput wire pin => "wire " ++ wire ++ ": " ++ pin ++ " is not an output pin"
  | .notInput wire pin => "wire " ++ wire ++ ": " ++ pin ++ " is not an input pin"
  | .missingSlot slot => "unknown slot " ++ slot
  | .missingPinout pinout => "unknown pinout " ++ pinout

namespace Board

def checkSlots (b : Board) : Except BoardFault Unit :=
  b.slots.entries.forM fun (name, slot) =>
    if b.pinouts.contains slot.requires then .ok () else .error (.slotWithoutPinout name slot.requires)

def meetGadget (met : Names) (o : Occupant) : Except BoardFault Names :=
  if met.contains o.id then .error (.repeatedGadget o.id) else .ok (met.add o.id)

def meetOccupants (b : Board) (met : Names) (seated : SlotName × List Occupant) :
    Except BoardFault Names :=
  if b.slots.contains seated.1 then seated.2.foldlM meetGadget met
  else .error (.strayOccupants seated.1)

/-- Occupants stand in declared slots, and no gadget stands on the board twice. -/
def checkOccupants (b : Board) : Except BoardFault Unit := do
  let _ ← b.occupants.entries.foldlM b.meetOccupants ∅

/-- The slot that an endpoint is about: the one it names, or the one where the gadget it names stands. -/
def slotAt (b : Board) (wire : WireId) (e : Endpoint) : Except BoardFault SlotName :=
  match e.slot, e.gadget with
  | some slot, none => .ok slot
  | none, some gadget =>
    match b.slotOf? gadget with
    | some (slot, _) => .ok slot
    | none => .error (.unknownGadget wire gadget)
  | _, _ => .error (.ambiguousEndpoint wire)

def pinoutAt (b : Board) (wire : WireId) (e : Endpoint) : Except BoardFault Pinout := do
  let name ← b.slotAt wire e
  match b.slots.get? name with
  | none => .error (.unknownSlot wire name)
  | some slot =>
    match b.pinouts.get? slot.requires with
    | none => .error (.unknownPinout wire slot.requires)
    | some p => .ok p

def checkSource (b : Board) (w : Wire) : Except BoardFault Unit := do
  let p ← b.pinoutAt w.id w.source
  if p.hasOutput w.source.pin then .ok () else .error (.notOutput w.id w.source.pin)

def checkTarget (b : Board) (w : Wire) : Except BoardFault Unit := do
  let p ← b.pinoutAt w.id w.target
  if p.hasInput w.target.pin then .ok () else .error (.notInput w.id w.target.pin)

/-- Notes a wire, which must not have been met before and must have valid ends. -/
def meetWire (b : Board) (met : Names) (w : Wire) : Except BoardFault Names :=
  if met.contains w.id then .error (.repeatedWire w.id)
  else do
    b.checkSource w
    b.checkTarget w
    return met.add w.id

/-- Wires have valid ends, and no identity is shared by two. -/
def checkWires (b : Board) : Except BoardFault Unit := do
  let _ ← b.wires.foldlM b.meetWire ∅

/-- Reports the first fault of a board: slots come before occupants, and occupants before wires. -/
def validate (b : Board) : Except BoardFault Unit := do
  b.checkSlots
  b.checkOccupants
  b.checkWires

end Board

end Patchbay
