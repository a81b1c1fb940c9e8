import Patchbay.Contact.Basic

/-!
Gadgets: computation units with named pins. What a gadget answers is a function of its earlier calls and of
the call at hand, so that all state of an instance is the list of its calls.
-/

namespace Patchbay

abbrev PinValues := Dict Json

/-- An instant, in nanoseconds since some beginning. -/
abbrev Instant := Nat

/-- What a gadget sees of itself: its identity and the parameters of its node. -/
structure GadgetContext where
  gadget : GadgetId
  params : Json := .null

structure GadgetCall where
  time : Instant
  inputs : PinValues
  context : GadgetContext

inductive GadgetError where
  | unknownTemplate (name : TemplateName)
  | notFound (id : GadgetId)
  | duplicate (id : GadgetId)
  | failed (reason : String)
  | invalidParams (template : TemplateName) (reason : String)
  | contact (cause : ContactError)
  | unmounted (pin : PinName) (id : GadgetId)
  deriving DecidableEq

def GadgetError.message : GadgetError → String
  | .unknownTemplate name => "unknown gadget template: " ++ name
  | .notFound id => "gadget not found: " ++ id
  | .duplicate id => "gadget already registered: " ++ id
  | .failed reason => "gadget failed: " ++ reason
  | .invalidParams template reason => "invalid gadget params for " ++ template ++ ": " ++ reason
  | .contact cause => "contact error: " ++ cause.message
  | .unmounted pin id => "input pin " ++ pin ++ " of " ++ id ++ " is not mounted"

/-- What a gadget leaves in the journal: a value that a tap saw, or a call that a recorder saw. -/
inductive Note where
  | tapped (gadget : GadgetId) (value : Json)
  | recorded (inputs : PinValues) (params : Json)

/-- What a gadget answers to a call: its outputs or a failure, and its notes for the journal. -/
structure Reply where
  result : Except GadgetError PinValues
  notes : List Note := []

namespace Gadget

def allPresent (inputs : List PinName) (values : PinValues) : Bool :=
  inputs.all fun pin => (values.get? pin).any fun v => !v.isNull

end Gadget

/-- A computation unit. It fires when `activation` accepts its inputs, and takes `delay` milliseconds to
answer; without a delay it answers at once. `process` sees the earlier calls of the instance, oldest first. -/
structure Gadget where
  inputs : List PinName
  outputs : List PinName
  activation : PinValues → Bool := Gadget.allPresent inputs
  delay : Nat := 0
  process : List GadgetCall → GadgetCall → Reply

namespace Gadget

/-- A gadget whose answer depends on the call at hand alone. -/
def ofFunction (inputs outputs : List PinName)
    (f : PinValues → GadgetContext → Except GadgetError PinValues) : Gadget where
  inputs := inputs
  outputs := outputs
  process _ call := { result := f call.inputs call.context }

end Gadget

namespace Journal

def taps (journal : List Note) : List (GadgetId × Json) :=
  journal.filterMap fun
    | .tapped gadget value => some (gadget, value)
    | .recorded .. => none

def calls (journal : List Note) : List (PinValues × Json) :=
  journal.filterMap fun
    | .recorded inputs params => some (inputs, params)
    | .tapped .. => none

def clearTaps (journal : List Note) : List Note :=
  journal.filter fun
    | .tapped .. => false
    | .recorded .. => true

end Journal

end Patchbay
