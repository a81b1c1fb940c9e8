import Patchbay.Board.Basic

/-!
Plans: requests to edit a board, with who asks and why.
-/

namespace Patchbay

inductive EndpointShape where
  | slot
  | gadget
  | any
  deriving DecidableEq

/-- Which wires a plan is about: those with a label, those whose ends have given shapes, or those that carry
an aspect. -/
inductive WireSelector where
  | tag (label : String)
  | shape (source target : EndpointShape)
  | hasAspect (aspect : AspectId)
  deriving DecidableEq

/-- New values for the fields of a wire; an absent one leaves its field alone. The policy null clears the
wire's policy. -/
structure WirePatch where
  aspects : Option (List AspectInstance) := none
  labels : Option Names := none
  policy : Option Json := none
  deriving BEq

inductive BoardEdit where
  | addWire (wire : Wire)
  | updateWire (id : WireId) (patch : WirePatch)
  | weaveWires (selector : WireSelector) (aspect : AspectInstance)
  | removeWire (id : WireId)
  | mountGadget (slot : SlotName) (occupant : Occupant)
  | unmountGadget (gadget : GadgetId)
  deriving BEq

/-- An edit, who asks for it and why. An empty principal stands for the binder's own, and an empty reason
for the description of the edit. -/
structure Plan where
  edit : BoardEdit
  principal : String := ""
  reason : String := ""
  deriving BEq

namespace EndpointShape

def admits : EndpointShape → Endpoint → Bool
  | .slot, e => e.slot.isSome
  | .gadget, e => e.gadget.isSome
  | .any, _ => true

end EndpointShape

namespace WireSelector

def selects : WireSelector → Wire → Bool
  | .tag label, w => w.labels.contains label
  | .shape source target, w => source.admits w.source && target.admits w.target
  | .hasAspect aspect, w => w.aspects.any fun a => a.aspect == aspect

end WireSelector

namespace WirePatch

def apply (p : WirePatch) (w : Wire) : Wire :=
  { w with
    aspects := p.aspects.getD w.aspects
    labels := p.labels.getD w.labels
    policy := match p.policy with
      | some .null => none
      | some policy => some policy
      | none => w.policy }

end WirePatch

namespace BoardEdit

def describe : BoardEdit → String
  | .addWire wire => if wire.id = "" then "add wire" else "add wire " ++ wire.id
  | .updateWire id _ => "update wire " ++ id
  | .weaveWires _ aspect => "weave " ++ aspect.aspect
  | .removeWire id => "remove wire " ++ id
  | .mountGadget slot o => "mount " ++ o.id ++ " (" ++ o.template ++ ") in " ++ slot
  | .unmountGadget gadget => "unmount " ++ gadget

end BoardEdit

end Patchbay
