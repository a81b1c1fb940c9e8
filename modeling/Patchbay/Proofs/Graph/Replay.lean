import Patchbay.Proofs.Graph.Agreement
import Mathlib.Data.Finset.Basic
import Mathlib.Data.Finset.Lattice.Lemmas

/-! Steps replayed without the graphs that they came from. A replay knows which nodes and edges there are, and comes to
nothing where a step adds what is there or removes what is not. -/

namespace Patchbay

inductive GraphPart where
  | node (id : NodeId)
  | edge (id : EdgeId)
  deriving DecidableEq

namespace GraphPart

def bring? (s : Finset GraphPart) (x : GraphPart) : Option (Finset GraphPart) :=
  if x ∈ s then none else some (insert x s)

def take? (s : Finset GraphPart) (x : GraphPart) : Option (Finset GraphPart) :=
  if x ∈ s then some (s.erase x) else none

theorem foldlM_bring? {s : Finset GraphPart} {l : List GraphPart} (hl : l.Nodup) (hs : ∀ x ∈ l, x ∉ s) :
    l.foldlM bring? s = some (s ∪ l.toFinset) := by
  induction l generalizing s with
  | nil => simp
  | cons x rest ih =>
    obtain ⟨hx, hrest⟩ := List.nodup_cons.1 hl
    rw [List.foldlM_cons, bring?, if_neg (hs x List.mem_cons_self), Option.bind_eq_bind, Option.bind_some,
      ih hrest, List.toFinset_cons, Finset.insert_union, Finset.union_insert]
    intro y hy
    rw [Finset.mem_insert, not_or]
    exact ⟨fun he => hx (he ▸ hy), hs y (List.mem_cons_of_mem x hy)⟩

theorem foldlM_take? {s : Finset GraphPart} {l : List GraphPart} (hl : l.Nodup) (hs : ∀ x ∈ l, x ∈ s) :
    l.foldlM take? s = some (s \ l.toFinset) := by
  induction l generalizing s with
  | nil => simp
  | cons x rest ih =>
    obtain ⟨hx, hrest⟩ := List.nodup_cons.1 hl
    rw [List.foldlM_cons, take?, if_pos (hs x List.mem_cons_self), Option.bind_eq_bind, Option.bind_some,
      ih hrest, List.toFinset_cons, Finset.sdiff_insert, Finset.erase_sdiff_comm]
    intro y hy
    exact Finset.mem_erase.2 ⟨fun he => hx (he ▸ hy), hs y (List.mem_cons_of_mem x hy)⟩

end GraphPart

namespace GraphDiff

/-- The parts that there are after a step. Nothing may come that is there, and nothing may go that is not. -/
def replayStep? (s : Finset GraphPart) : GraphDiff → Option (Finset GraphPart)
  | .addNode id => GraphPart.bring? s (.node id)
  | .removeNode id => GraphPart.take? s (.node id)
  | .addEdge id => GraphPart.bring? s (.edge id)
  | .removeEdge id => GraphPart.take? s (.edge id)

def replay? (s : Finset GraphPart) (diffs : List GraphDiff) : Option (Finset GraphPart) :=
  diffs.foldlM replayStep? s

theorem replay?_append (s : Finset GraphPart) (as bs : List GraphDiff) :
    replay? s (as ++ bs) = (replay? s as).bind fun t => replay? t bs := List.foldlM_append

def add : GraphPart → GraphDiff
  | .node id => .addNode id
  | .edge id => .addEdge id

def remove : GraphPart → GraphDiff
  | .node id => .removeNode id
  | .edge id => .removeEdge id

theorem replay?_map_add (s : Finset GraphPart) (l : List GraphPart) :
    replay? s (l.map add) = l.foldlM GraphPart.bring? s := by
  have hstep : (fun s x => replayStep? s (add x)) = GraphPart.bring? := by
    funext s x
    cases x <;> rfl
  rw [replay?, List.foldlM_map, hstep]

theorem replay?_map_remove (s : Finset GraphPart) (l : List GraphPart) :
    replay? s (l.map remove) = l.foldlM GraphPart.take? s := by
  have hstep : (fun s x => replayStep? s (remove x)) = GraphPart.take? := by
    funext s x
    cases x <;> rfl
  rw [replay?, List.foldlM_map, hstep]

end GraphDiff

namespace Graph

def parts (g : Graph) : Finset GraphPart :=
  (g.nodes.keys.map GraphPart.node ++ g.edges.keys.map GraphPart.edge).toFinset

theorem node_mem_parts {g : Graph} {id : NodeId} : .node id ∈ g.parts ↔ g.nodes.contains id = true := by
  simp [parts, Dict.mem_keys]

theorem edge_mem_parts {g : Graph} {id : EdgeId} : .edge id ∈ g.parts ↔ g.edges.contains id = true := by
  simp [parts, Dict.mem_keys]

/-- The parts that one graph has and another has not, edges first. -/
def partsBeyond (g g' : Graph) : List GraphPart :=
  (missingFrom g.edges g'.edges).map GraphPart.edge ++ (missingFrom g.nodes g'.nodes).map GraphPart.node

theorem mem_partsBeyond {g g' : Graph} {x : GraphPart} : x ∈ g.partsBeyond g' ↔ x ∈ g.parts ∧ x ∉ g'.parts := by
  cases x <;> simp [partsBeyond, node_mem_parts, edge_mem_parts, mem_missingFrom]

theorem nodup_partsBeyond (g g' : Graph) : (g.partsBeyond g').Nodup := by
  rw [partsBeyond, List.nodup_append']
  refine ⟨(nodup_missingFrom ..).map fun _ _ => GraphPart.edge.inj,
    (nodup_missingFrom ..).map fun _ _ => GraphPart.node.inj, fun x hx hx' => ?_⟩
  obtain ⟨id, -, rfl⟩ := List.mem_map.1 hx
  simp at hx'

theorem diff_eq (old new : Graph) : ∃ coming : List GraphPart, coming.Perm (new.partsBeyond old) ∧
    old.diff new = (old.partsBeyond new).map GraphDiff.remove ++ coming.map GraphDiff.add := by
  refine ⟨(missingFrom new.nodes old.nodes).map GraphPart.node ++ (missingFrom new.edges old.edges).map GraphPart.edge,
    List.perm_append_comm, ?_⟩
  simp only [diff, partsBeyond, List.map_append, List.map_map, List.append_assoc]
  rfl

/-- The steps from one graph to another can be replayed from the parts of the one, and lead to the parts of the
other. -/
theorem replay?_diff (old new : Graph) : GraphDiff.replay? old.parts (old.diff new) = some new.parts := by
  obtain ⟨coming, hperm, hdiff⟩ := diff_eq old new
  have hgo : ∀ x ∈ old.partsBeyond new, x ∈ old.parts := fun x hx => (mem_partsBeyond.1 hx).1
  have hcome : ∀ x ∈ coming, x ∉ old.parts \ (old.partsBeyond new).toFinset := by
    intro x hx hold
    exact (mem_partsBeyond.1 (hperm.mem_iff.1 hx)).2 (Finset.mem_sdiff.1 hold).1
  rw [hdiff, GraphDiff.replay?_append, GraphDiff.replay?_map_remove,
    GraphPart.foldlM_take? (nodup_partsBeyond old new) hgo, Option.bind_some, GraphDiff.replay?_map_add,
    GraphPart.foldlM_bring? (hperm.nodup_iff.2 (nodup_partsBeyond new old)) hcome]
  congr 1
  ext x
  rw [Finset.mem_union, Finset.mem_sdiff, List.mem_toFinset, List.mem_toFinset, hperm.mem_iff, mem_partsBeyond,
    mem_partsBeyond]
  tauto

end Graph

end Patchbay
