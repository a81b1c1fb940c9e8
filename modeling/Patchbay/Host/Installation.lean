import Patchbay.Gadget.Bench
import Patchbay.Host.Error

/-!
Installations: the contacts, connections and gadgets that stand for a graph. Every pin of a node has a
contact, every node a gadget, and every edge a connection.
-/

namespace Patchbay

/-- What is in place for a board: the bench, the registration of each node's gadget, and the connection of
each edge. Steps that failed are noted with the reason, oldest first. -/
structure Installation where
  bench : Bench := {}
  gadgets : Dict GadgetId := ∅
  connections : Dict ConnectionId := ∅
  skipped : List (GraphDiff × HostError) := []

namespace Node

/-- What a node's gadget is registered as: the gadget that is mounted, or the node itself for a shim. -/
def registrationId (n : Node) : GadgetId :=
  match n.kind, n.gadget with
  | .gadget, some gadget => gadget
  | _, _ => n.id

def hasInput (n : Node) (pin : PinName) : Bool :=
  (n.pins.get? pin).any fun spec => spec.direction = .input

def contactsToward (n : Node) (d : PinDirection) : Dict ContactId :=
  (n.pins.filter fun _ spec => spec.direction = d).map fun pin _ => pinContact n.id pin

/-- How a node's gadget is mounted: each pin on its own contact. -/
def mount (n : Node) : Mount where
  inputs := n.contactsToward .input
  outputs := n.contactsToward .output
  params := n.params

end Node

namespace Edge

def sourceContact (e : Edge) : ContactId := pinContact e.source e.sourcePin

def targetContact (e : Edge) : ContactId := pinContact e.target e.targetPin

end Edge

namespace Installation

def store (i : Installation) : ContactStore := i.bench.engine.store

def executor (i : Installation) : Executor := i.bench.executor

def withStore (i : Installation) (store : ContactStore) : Installation :=
  { i with bench := { i.bench with engine := { i.bench.engine with store } } }

def withExecutor (i : Installation) (executor : Executor) : Installation :=
  { i with bench := { i.bench with executor } }

def subscribe (i : Installation) : Installation :=
  let (executor, store) := i.executor.subscribe i.store
  (i.withStore store).withExecutor executor

def unsubscribe (i : Installation) : Installation :=
  let (executor, store) := i.executor.unsubscribe i.store
  (i.withStore store).withExecutor executor

def noteSkipped (i : Installation) (d : GraphDiff) (e : HostError) : Installation :=
  { i with skipped := i.skipped ++ [(d, e)] }

end Installation

end Patchbay
