import Patchbay.Gadget.Library
import Patchbay.Host.Error
import Patchbay.Host.Installation

/-!
Preparation: before a change of the graph touches anything in place, the gadgets and lattices of all new
nodes are made, and whatever would clash with what stays in place is found.
-/

namespace Patchbay

/-- What nodes are made with: templates, lattices, and the lattice of pins that name none. -/
structure Workshop where
  library : GadgetLibrary
  lattices : LatticeRegistry
  defaultLattice : LatticeName

/-- What new nodes need: their gadgets, by node, and the lattices of their pins, by contact. The
registrations are those that they will take. -/
structure Preparation where
  gadgets : Dict Gadget := ∅
  lattices : Dict Lattice := ∅
  registrations : Names := ∅

/-- What a change takes away: registrations and contacts. -/
structure Retirement where
  gadgets : Names := ∅
  contacts : Names := ∅

namespace GraphDiff

/-- The nodes that steps add, as the new graph has them, in order. -/
def addedNodes (g : Graph) (diffs : List GraphDiff) : List Node :=
  diffs.filterMap fun
    | .addNode id => g.nodes.get? id
    | _ => none

def addedEdges (g : Graph) (diffs : List GraphDiff) : List Edge :=
  diffs.filterMap fun
    | .addEdge id => g.edges.get? id
    | _ => none

def removedNodes (diffs : List GraphDiff) : List NodeId :=
  diffs.filterMap fun
    | .removeNode id => some id
    | _ => none

end GraphDiff

namespace Retirement

def addGadget (x : Executor) (r : Retirement) (gadget : GadgetId) : Retirement where
  gadgets := r.gadgets.add gadget
  contacts := match x.gadgets.get? gadget with
    | some registration => registration.mount.contacts.foldl Names.add r.contacts
    | none => r.contacts

/-- What goes away with the nodes that steps remove. -/
def ofDiffs (i : Installation) (diffs : List GraphDiff) : Retirement :=
  ((GraphDiff.removedNodes diffs).filterMap i.gadgets.get?).foldl (addGadget i.executor) {}

end Retirement

namespace Installation

def keepsContact (i : Installation) (r : Retirement) (contact : ContactId) : Bool :=
  i.store.contains contact && !r.contacts.contains contact

/-- Whether a registration is in place and stays there. -/
def keepsGadget (i : Installation) (r : Retirement) (gadget : GadgetId) : Bool :=
  i.executor.contains gadget && !r.gadgets.contains gadget

end Installation

/-- The text for a gadget that reads a pin which its node does not have as an input. -/
def undeclaredInput (n : Node) (pin : PinName) : String :=
  "reads pin " ++ pin ++ ", which node " ++ n.id ++ " does not declare as an input"

namespace Workshop

/-- Looks up the lattice of a pin, whose contact must not be there yet. -/
def preparePin (w : Workshop) (i : Installation) (r : Retirement) (node : NodeId)
    (lattices : Dict Lattice) (pin : PinName × PinSpec) : Except HostError (Dict Lattice) :=
  let contact := pinContact node pin.1
  if i.keepsContact r contact || lattices.contains contact then
    .error (.contact (.duplicate contact))
  else do
    let lattice ← (w.lattices.get (pin.2.lattice.getD w.defaultLattice)).mapError .lattice
    return lattices.insert contact lattice

/-- Makes the gadget of a node, which may read the node's input pins only, and looks up the lattices of its
pins. The registration must be free. -/
def prepareNode (w : Workshop) (i : Installation) (r : Retirement) (p : Preparation) (n : Node) :
    Except HostError Preparation := do
  let gadget ← (w.library.create n.template n.params).mapError .gadget
  match gadget.inputs.find? fun pin => !n.hasInput pin with
  | some pin => .error (.gadget (.invalidParams n.template (undeclaredInput n pin)))
  | none =>
    if i.keepsGadget r n.registrationId || p.registrations.contains n.registrationId then
      .error (.gadget (.duplicate n.registrationId))
    else do
      let lattices ← n.pins.entries.foldlM (w.preparePin i r n.id) p.lattices
      return {
        gadgets := p.gadgets.insert n.id gadget
        lattices
        registrations := p.registrations.add n.registrationId }

def prepareNodes (w : Workshop) (g : Graph) (diffs : List GraphDiff) (i : Installation) :
    Except HostError Preparation :=
  (GraphDiff.addedNodes g diffs).foldlM (w.prepareNode i (.ofDiffs i diffs)) {}

/-- A contact is in place and stays there, or will be there. -/
def checkContact (i : Installation) (r : Retirement) (p : Preparation) (contact : ContactId) :
    Except HostError Unit :=
  if i.keepsContact r contact || p.lattices.contains contact then .ok ()
  else .error (.contact (.notFound contact))

/-- Prepares the steps to a graph: its new nodes, and after them the ends of its new edges. -/
def prepare (w : Workshop) (g : Graph) (diffs : List GraphDiff) (i : Installation) :
    Except HostError Preparation := do
  let p ← w.prepareNodes g diffs i
  (GraphDiff.addedEdges g diffs).forM fun e => do
    checkContact i (.ofDiffs i diffs) p e.sourceContact
    checkContact i (.ofDiffs i diffs) p e.targetContact
  return p

end Workshop

end Patchbay
