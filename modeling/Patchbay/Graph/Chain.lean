import Patchbay.Graph.Basic

/-!
The chain of shims on a wire, read off a graph edge by edge. In a graph of any shape the edges of a wire may
lead round in a circle; then the chain has no end, and there is no list of its shims.
-/

namespace Patchbay.Graph

/-- Where the chain of a wire starts: the target of the first of its edges that leaves a gadget. -/
def chainStart? (g : Graph) (wire : WireId) : Option NodeId :=
  ((g.edgesOn wire).find? fun e => (g.nodes.get? e.source).any fun n => n.kind = .gadget).map
    fun e => e.target

/-- The node that the first edge of a wire out of `node` leads to. -/
def next? (g : Graph) (wire : WireId) (node : NodeId) : Option NodeId :=
  ((g.edgesOn wire).find? fun e => e.source == node).map fun e => e.target

/-- The shims met from `node` on, up to the first node that is none or has no edge of the wire. Only the
nodes of `unseen` are still to be met; meeting another again shows that the chain has no end. -/
def chainFrom? (g : Graph) (wire : WireId) (unseen : List NodeId) (node : NodeId) : Option (List Node) :=
  match g.nodes.get? node with
  | none => some []
  | some n =>
    if n.kind = .gadget then some []
    else if h : node ∈ unseen then
      match g.next? wire node with
      | none => some [n]
      | some m =>
        have : (unseen.erase node).length < unseen.length := by
          rw [List.length_erase_of_mem h]
          exact Nat.sub_lt (List.length_pos_of_mem h) Nat.one_pos
        (g.chainFrom? wire (unseen.erase node) m).map (n :: ·)
    else none
termination_by unseen.length

/-- The shims on a wire in the order that values pass them, unless they follow each other in a circle. -/
def shimsOn? (g : Graph) (wire : WireId) : Option (List Node) :=
  match g.chainStart? wire with
  | none => some []
  | some start => g.chainFrom? wire g.nodes.keys start

end Patchbay.Graph
