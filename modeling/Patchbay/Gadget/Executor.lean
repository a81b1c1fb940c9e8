import Patchbay.Gadget.Basic
import Patchbay.Propagation.Engine
import Patchbay.Text.Quoted

/-!
The executor: which gadgets are mounted on which contacts, and which of them read a contact that changed.
-/

namespace Patchbay

/-- The contacts that the pins of a gadget are bound to, and the parameters it sees. -/
structure Mount where
  inputs : Dict ContactId := ∅
  outputs : Dict ContactId := ∅
  params : Json := .null

inductive ExecutionStatus where
  | completed
  | skipped
  | failed (cause : GadgetError)
  deriving DecidableEq

/-- One attempt to execute a gadget: what it read, what it gave, and what its outputs did. -/
structure Execution where
  gadget : GadgetId
  status : ExecutionStatus
  inputs : PinValues
  outputs : PinValues := ∅
  propagation : PropagationStats := {}

structure GadgetStats where
  executions : Nat := 0
  skipped : Nat := 0
  failures : Nat := 0
  last : Option Execution := none

/-- A gadget in place, with the calls it has had, oldest first. -/
structure Registration where
  gadget : Gadget
  mount : Mount
  calls : List GadgetCall := []
  stats : GadgetStats := {}

/-- The gadgets in place. `readers` tells which of them have an input pin on a contact; `number` is the
executor's own among those who listen. -/
structure Executor where
  number : Nat := 0
  gadgets : Dict Registration := ∅
  readers : Dict Names := ∅
  subscription : Option Subscription := none

namespace Mount

def contacts (m : Mount) : List ContactId := m.inputs.values ++ m.outputs.values

end Mount

namespace GadgetStats

def record (s : GadgetStats) (x : Execution) : GadgetStats :=
  match x.status with
  | .skipped => { s with skipped := s.skipped + 1, last := some x }
  | .completed => { s with executions := s.executions + 1, last := some x }
  | .failed _ =>
    { s with executions := s.executions + 1, failures := s.failures + 1, last := some x }

end GadgetStats

namespace Executor

def listener (x : Executor) : Listener := .executor x.number

def contains (x : Executor) (id : GadgetId) : Bool := x.gadgets.contains id

def gadgetIds (x : Executor) : List GadgetId := x.gadgets.keys

def registration (x : Executor) (id : GadgetId) : Except GadgetError Registration :=
  match x.gadgets.get? id with
  | some r => .ok r
  | none => .error (.notFound id)

def addReader (id : GadgetId) (readers : Dict Names) (contact : ContactId) : Dict Names :=
  readers.insert contact ((readers.getD contact ∅).add id)

/-- Strikes a gadget from the readers of a contact; a contact without readers is not listed. -/
def dropReader (id : GadgetId) (readers : Dict Names) (contact : ContactId) : Dict Names :=
  match readers.get? contact with
  | none => readers
  | some names =>
    let rest := names.erase id
    if rest.isEmpty then readers.erase contact else readers.insert contact rest

/-- Puts a gadget in place. Every input pin that it declares must be bound to a contact. -/
def register (x : Executor) (id : GadgetId) (gadget : Gadget) (mount : Mount) :
    Except GadgetError Executor :=
  if x.contains id then .error (.duplicate id)
  else
    match gadget.inputs.find? fun pin => !mount.inputs.contains pin with
    | some pin => .error (.unmounted pin id)
    | none => .ok { x with
        gadgets := x.gadgets.insert id { gadget, mount }
        readers := mount.inputs.values.foldl (addReader id) x.readers }

def unregister (x : Executor) (id : GadgetId) : Except GadgetError (Executor × Mount) := do
  let r ← x.registration id
  let x := { x with
    gadgets := x.gadgets.erase id
    readers := r.mount.inputs.values.foldl (dropReader id) x.readers }
  return (x, r.mount)

/-! ## Listening -/

/-- Listens to a store. An earlier subscription of the executor is ended there by its number. -/
def subscribe (x : Executor) (s : ContactStore) : Executor × ContactStore :=
  let s := match x.subscription with
    | some n => (s.unsubscribe n).1
    | none => s
  let (s, n) := s.subscribe x.listener
  ({ x with subscription := some n }, s)

/-- Listens to a store no longer. What was heard before stays. -/
def unsubscribe (x : Executor) (s : ContactStore) : Executor × ContactStore :=
  match x.subscription with
  | some n => ({ x with subscription := none }, (s.unsubscribe n).1)
  | none => (x, s)

/-- The contacts that changed, as far as the executor heard and has not acted on. -/
def dirty (x : Executor) (s : ContactStore) : Names :=
  .ofNames ((s.lettersTo (· = x.listener)).map fun m => m.change.contact)

def readersOf (x : Executor) (contacts : Names) : Names :=
  (contacts.keys.filterMap x.readers.get?).foldl Names.join ∅

/-- The gadgets that read a contact that changed, and the store with that news taken. -/
def triggered (x : Executor) (s : ContactStore) : ContactStore × List GadgetId :=
  ((s.takeMail (· = x.listener)).1, (x.readersOf (x.dirty s)).keys)

/-- Whether a gadget reads a contact that changed. -/
def hasPending (x : Executor) (s : ContactStore) : Bool :=
  (x.dirty s).keys.any x.readers.contains

def describe (x : Executor) : String :=
  let ids := x.gadgetIds.map fun id => Quoted.wrapped "GadgetId" (Quoted.string id)
  "GadgetExecutor \x7b gadgets: " ++ Quoted.list ids ++ ", subscribed: " ++
    (if x.subscription.isSome then "true" else "false") ++ " \x7d"

end Executor

end Patchbay
