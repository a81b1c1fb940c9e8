import Patchbay.Aspect.Composition
import Patchbay.Naming

/-!
What a wire comes to in a graph: a strand of shims, one for each aspect of the data plane, and the edges that
lead from the source over the shims to the target.
-/

namespace Patchbay

inductive WireFault where
  | unknownAspect (aspect : AspectId)
  | misplacedAspect (aspect : AspectId)
  | incompatible (conflict : AspectConflict)
  deriving DecidableEq

/-- One end of a strand: a pin of a node. -/
structure NodePin where
  node : NodeId
  pin : PinName
  deriving DecidableEq

/-- The shims of a wire in the order that values pass them, and its edges in the same order. -/
structure Strand where
  shims : List Node := []
  edges : List Edge := []

namespace Wire

/-- The instances of an aspect on a wire, each with its position among all instances there. -/
def instancesOf (w : Wire) (aspect : AspectId) : List (AspectInstance × Nat) :=
  w.aspects.zipIdx.filter fun x => x.1.aspect == aspect

end Wire

namespace Manifest

def tag (aspect : AspectId) : String := "aspect:" ++ aspect

/-- The parameters of the shim for the instances of one aspect, and the instances that went into them. A
lone instance is taken as declared; several are folded into one, which may leave none. -/
def combine? (m : Manifest) (group : List (AspectInstance × Nat)) :
    Option (Json × List (AspectInstance × Nat)) :=
  match group with
  | [x] => some (x.1.params, [x])
  | _ => (m.compose? (group.map (·.1))).map fun c =>
    (c.params, c.contributors.filterMap fun i => group[i]?)

/-- The pins of a shim, both of the lattice of the pin that feeds the wire. -/
def shimPins (lattice : Option LatticeName) : Dict PinSpec :=
  .ofList [("in", ⟨.input, lattice⟩), ("out", ⟨.output, lattice⟩)]

/-- The shim of an aspect on a wire. There is none for an aspect of the control plane, or where no instance
is left. -/
def shimOn? (m : Manifest) (naming : Naming) (w : Wire) (lattice : Option LatticeName)
    (aspect : AspectId) : Option Node :=
  match m.kind with
  | .controlPlane => none
  | .dataPlane joinPoint template =>
    (m.combine? (w.instancesOf aspect)).map fun (params, contributors) => {
      id := naming.shimNode w.id aspect params
      kind := .shim
      template
      wire := some w.id
      pins := shimPins lattice
      tags := .ofNames [tag aspect, "join:" ++ joinPoint.name]
      params
      origins := contributors.map fun (a, i) => .aspect aspect w.id i a.params }

/-- Whether an aspect leaves tags on edges in place of a shim. -/
def isControlPlane (m : Manifest) : Bool :=
  match m.kind with
  | .controlPlane => true
  | .dataPlane .. => false

end Manifest

namespace AspectRegistry

def manifestOnWire (r : AspectRegistry) (aspect : AspectId) : Except WireFault Manifest :=
  match r.get? aspect with
  | none => .error (.unknownAspect aspect)
  | some m => if m.allows .wire then .ok m else .error (.misplacedAspect aspect)

def manifestsOn (r : AspectRegistry) (w : Wire) : Except WireFault (Dict Manifest) :=
  w.aspects.foldlM (fun acc a => do return acc.insert a.aspect (← r.manifestOnWire a.aspect)) ∅

/-- The aspects on a wire with their manifests, in canonical order. They must be compatible. -/
def aspectsOn (r : AspectRegistry) (w : Wire) : Except WireFault (List (AspectId × Manifest)) := do
  let manifests ← r.manifestsOn w
  (r.checkCompatible manifests.keys).mapError .incompatible
  return (r.sortIds manifests.keys).filterMap fun id => (manifests.get? id).map fun m => (id, m)

end AspectRegistry

namespace Strand

def edgesAlong (naming : Naming) (wire : WireId) (tags : Names) (source : NodePin) (shims : List NodeId)
    (target : NodePin) : List Edge :=
  let link (a b : NodePin) : Edge := {
    id := naming.edge wire a.node a.pin b.node b.pin
    wire
    source := a.node
    sourcePin := a.pin
    target := b.node
    targetPin := b.pin
    tags }
  match shims with
  | [] => [link source target]
  | shim :: rest => link source ⟨shim, "in"⟩ :: edgesAlong naming wire tags ⟨shim, "out"⟩ rest target

/-- The strand of a wire between two nodes, given the lattice of the pin that feeds it. -/
def ofWire (r : AspectRegistry) (naming : Naming) (w : Wire) (lattice : Option LatticeName)
    (source target : NodeId) : Except WireFault Strand := do
  let aspects ← r.aspectsOn w
  let tags : Names := .ofNames <| (aspects.filter fun x => x.2.isControlPlane).map fun x => Manifest.tag x.1
  let shims := aspects.filterMap fun x => x.2.shimOn? naming w lattice x.1
  return {
    shims
    edges := edgesAlong naming w.id tags ⟨source, w.source.pin⟩ (shims.map (·.id)) ⟨target, w.target.pin⟩ }

end Strand

end Patchbay
