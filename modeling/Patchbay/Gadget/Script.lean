import Patchbay.Gadget.Shims

/-!
Gadgets whose behaviour is written in their parameters.
-/

namespace Patchbay.Gadget

/-- A behaviour written as data: the pins, a failure to answer every call with, constant outputs, outputs
that copy an input, and the pins to put the context's parameters and identity on. -/
structure Script where
  inputs : List PinName := []
  outputs : List PinName := []
  failure : Option String := none
  emit : Dict Json := ∅
  copy : Dict PinName := ∅
  paramsTo : Option PinName := none
  idTo : Option PinName := none

namespace Script

/-- The strings of an array; anything else has none. -/
def namesOf (j : Option Json) : List String :=
  ((j.bind Json.asItems?).getD []).filterMap Json.asString?

def ofParams (params : Json) : Script where
  inputs := namesOf (params.get? "inputs")
  outputs := namesOf (params.get? "outputs")
  failure := (params.get? "fail").bind Json.asString?
  emit := ((params.get? "emit").bind Json.asDict?).getD ∅
  copy := (((params.get? "copy").bind Json.asDict?).getD ∅).map fun _ v => v.asString?.getD ""
  paramsTo := (params.get? "params_to").bind Json.asString?
  idTo := (params.get? "id_to").bind Json.asString?

def put (outputs : PinValues) (pin : Option PinName) (v : Json) : PinValues :=
  match pin with
  | some pin => outputs.insert pin v
  | none => outputs

/-- The answer of a script: constants, then copies, then parameters and identity, the later ones in place
of the earlier. -/
def run (s : Script) (inputs : PinValues) (context : GadgetContext) :
    Except GadgetError PinValues :=
  match s.failure with
  | some reason => .error (.failed reason)
  | none =>
    let copied := s.copy.map fun _ pin => inputs.getD pin .null
    .ok (put (put (s.emit.union copied) s.paramsTo context.params) s.idTo (.str context.gadget))

end Script

def scripted (s : Script) : Gadget := ofFunction s.inputs s.outputs s.run

/-- The gadget that parameters describe. They may refuse to be made into one. -/
def scriptedOf (params : Json) : Except GadgetError Gadget :=
  if !params.isObj then .error (.invalidParams "fn" "params must be an object")
  else
    match (params.get? "reject").bind Json.asString? with
    | some reason => .error (.invalidParams "fn" reason)
    | none => .ok (scripted (.ofParams params))

end Patchbay.Gadget
