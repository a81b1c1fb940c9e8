import Patchbay.Plan.Basic
import Patchbay.Text.Quoted

/-!
The effect of an edit on a board, and what an edit may look for in vain.
-/

namespace Patchbay

inductive EditError where
  | noWire (id : WireId)
  | noSlot (slot : SlotName)
  | noGadget (gadget : GadgetId)
  | nothingSelected (selector : WireSelector)
  deriving DecidableEq

def EndpointShape.describe : EndpointShape → String
  | .slot => "Slot"
  | .gadget => "Gadget"
  | .any => "Any"

def WireSelector.describe : WireSelector → String
  | .tag label => "Tag \x7b tag: " ++ Quoted.string label ++ " \x7d"
  | .shape source target =>
    "Shape \x7b from: " ++ source.describe ++ ", to: " ++ target.describe ++ " \x7d"
  | .hasAspect aspect =>
    "HasAspect \x7b aspect: " ++ Quoted.wrapped "AspectId" (Quoted.string aspect) ++ " \x7d"

def EditError.message : EditError → String
  | .noWire id => "not found: wire " ++ id
  | .noSlot slot => "not found: slot " ++ slot
  | .noGadget gadget => "not found: gadget " ++ gadget
  | .nothingSelected selector => "not found: no wire matches selector " ++ selector.describe

namespace Board

def patchWires (id : WireId) (patch : WirePatch) : List Wire → Option (List Wire)
  | [] => none
  | w :: rest =>
    if w.id = id then some (patch.apply w :: rest)
    else (patchWires id patch rest).map (w :: ·)

def updateWire (b : Board) (id : WireId) (patch : WirePatch) : Except EditError Board :=
  match patchWires id patch b.wires with
  | some wires => .ok { b with wires }
  | none => .error (.noWire id)

/-- Attaches an aspect to every selected wire, of which there must be one. -/
def weave (b : Board) (selector : WireSelector) (a : AspectInstance) : Except EditError Board :=
  if b.wires.any selector.selects then
    .ok { b with
      wires := b.wires.map fun w =>
        if selector.selects w then { w with aspects := w.aspects ++ [a] } else w }
  else .error (.nothingSelected selector)

def removeWire (b : Board) (id : WireId) : Except EditError Board :=
  if b.wires.any fun w => w.id == id then .ok { b with wires := b.wires.filter fun w => w.id ≠ id }
  else .error (.noWire id)

def mount (b : Board) (slot : SlotName) (o : Occupant) : Except EditError Board :=
  if b.slots.contains slot then .ok (b.addOccupant slot o) else .error (.noSlot slot)

/-- Takes a gadget out of its slot, along with every wire that names it. -/
def unmount (b : Board) (gadget : GadgetId) : Except EditError Board :=
  match b.slotOf? gadget with
  | none => .error (.noGadget gadget)
  | some (slot, i) => .ok { b with
      occupants := b.occupants.modify slot fun list => list.eraseIdx i
      wires := b.wires.filter fun w => w.source.gadget ≠ some gadget && w.target.gadget ≠ some gadget }

end Board

def BoardEdit.apply (b : Board) : BoardEdit → Except EditError Board
  | .addWire wire => .ok (b.addWire wire)
  | .updateWire id patch => b.updateWire id patch
  | .weaveWires selector aspect => b.weave selector aspect
  | .removeWire id => b.removeWire id
  | .mountGadget slot occupant => b.mount slot occupant
  | .unmountGadget gadget => b.unmount gadget

end Patchbay
