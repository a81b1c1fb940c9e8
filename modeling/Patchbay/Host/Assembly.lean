import Patchbay.Host.Preparation

/-!
Assembly: the steps from one graph to another, carried out on what is in place. New connections pass on what
their sources already hold.
-/

namespace Patchbay

namespace Installation

def addContact (p : Preparation) (node : NodeId) (s : ContactStore) (pin : PinName × PinSpec) :
    Except HostError ContactStore :=
  let contact := pinContact node pin.1
  match p.lattices.get? contact with
  | none => .error (.lattice (.unknown (pin.2.lattice.getD "")))
  | some lattice => (s.register contact lattice none).mapError .contact

/-- Puts a node in place: the contacts of its pins, and its gadget mounted on them. -/
def addNode (i : Installation) (p : Preparation) (n : Node) : Except HostError Installation :=
  match p.gadgets.get? n.id with
  | none => .error (.gadget (.unknownTemplate n.template))
  | some gadget => do
    let store ← n.pins.entries.foldlM (addContact p n.id) i.store
    let executor ← (i.executor.register n.registrationId gadget n.mount).mapError .gadget
    let i := (i.withStore store).withExecutor executor
    return { i with gadgets := i.gadgets.insert n.id n.registrationId }

def dropContact (s : ContactStore) (contact : ContactId) : Except HostError ContactStore :=
  match s.remove contact with
  | .ok (s, _) => .ok s
  | .error cause => .error (.contact cause)

def removeNode (i : Installation) (id : NodeId) : Except HostError Installation :=
  match i.gadgets.get? id with
  | none => .ok i
  | some gadget => do
    let (executor, mount) ← (i.executor.unregister gadget).mapError .gadget
    let store ← mount.contacts.foldlM dropContact i.store
    let i := (i.withStore store).withExecutor executor
    return { i with gadgets := i.gadgets.erase id }

def addEdge (i : Installation) (e : Edge) : Except HostError Installation := do
  let (store, connection) ←
    (i.store.connect e.wire e.sourceContact e.targetContact).mapError .contact
  let i := i.withStore store
  return { i with connections := i.connections.insert e.id connection }

def removeEdge (i : Installation) (id : EdgeId) : Installation :=
  match i.connections.get? id with
  | none => i
  | some connection =>
    let i := i.withStore (i.store.dropConnection connection)
    { i with connections := i.connections.erase id }

/-- An installation under way, with the contacts that new connections leave. -/
structure Progress where
  installation : Installation
  sources : Names := ∅

def step (g : Graph) (p : Preparation) (s : Progress) : GraphDiff → Except HostError Progress
  | .removeEdge id => .ok { s with installation := s.installation.removeEdge id }
  | .removeNode id => do return { s with installation := ← s.installation.removeNode id }
  | .addNode id =>
    match g.nodes.get? id with
    | none => .ok s
    | some n => do return { s with installation := ← s.installation.addNode p n }
  | .addEdge id =>
    match g.edges.get? id with
    | none => .ok s
    | some e => do
      return { installation := ← s.installation.addEdge e, sources := s.sources.add e.sourceContact }

/-- Carries out a step. One that fails is noted and leaves everything else as it is. -/
def stepOrSkip (g : Graph) (p : Preparation) (s : Progress) (d : GraphDiff) : Progress :=
  match step g p s d with
  | .ok s => s
  | .error e => { s with installation := s.installation.noteSkipped d e }

def flush (acc : Engine × PropagationStats) (source : ContactId) : Engine × PropagationStats :=
  match acc.1.propagate source .null with
  | .ok (engine, stats) => (engine, acc.2.absorb stats)
  | .error _ => acc

/-- Carries out the steps to a graph, and passes on what the sources of new connections hold. -/
def install (i : Installation) (g : Graph) (diffs : List GraphDiff) (p : Preparation) :
    Installation × PropagationStats :=
  let s := diffs.foldl (stepOrSkip g p) { installation := i }
  let i := s.installation
  let (engine, stats) := s.sources.keys.foldl flush (i.bench.engine, {})
  ({ i with bench := { i.bench with engine } }, stats)

end Installation

end Patchbay
