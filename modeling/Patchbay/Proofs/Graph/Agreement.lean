import Patchbay.Graph.Diff
import Patchbay.Proofs.Graph.Realization

/-! Two graphs of one board, before and after an edit. What has one identity in both is the same thing: a node for the
same gadget with the same pins, or an edge between the same pins on behalf of the same wire. -/

namespace Patchbay

namespace Node

def direction? (n : Node) (pin : PinName) : Option PinDirection := (n.pins.get? pin).map (·.direction)

theorem direction?_of_get? {n : Node} {pin : PinName} {spec : PinSpec} (h : n.pins.get? pin = some spec) :
    n.direction? pin = some spec.direction := by
  rw [direction?, h, Option.map_some]

/-- Two nodes stand for the same gadget and have the same pins, on whatever lattices. -/
structure Alike (n n' : Node) : Prop where
  id_eq : n'.id = n.id
  kind_eq : n'.kind = n.kind
  gadget_eq : n'.gadget = n.gadget
  direction?_eq : ∀ pin, n'.direction? pin = n.direction? pin

end Node

namespace Graph

/-- Nodes and edges stand under their own identities, nodes have no point in theirs, and edges lead from node to
node. -/
structure Grounded (g : Graph) : Prop where
  node_id : ∀ id n, g.nodes.get? id = some n → n.id = id
  undotted : ∀ id, g.nodes.contains id = true → '.' ∉ id.toList
  edge_id : ∀ k e, g.edges.get? k = some e → e.id = k
  ends : ∀ k e, g.edges.get? k = some e →
    g.nodes.contains e.source = true ∧ g.nodes.contains e.target = true

/-- What two graphs both have is the same in both, but for the tags and lattices it has. -/
structure Agrees (g g' : Graph) : Prop where
  nodes : ∀ id n n', g.nodes.get? id = some n → g'.nodes.get? id = some n' → n.Alike n'
  edges : ∀ k e e', g.edges.get? k = some e → g'.edges.get? k = some e' → ∃ tags, e' = { e with tags }

theorem not_node_empty (id : NodeId) (n : Node) : empty.nodes.get? id ≠ some n := Option.some_ne_none n |>.symm

theorem not_edge_empty (k : EdgeId) (e : Edge) : empty.edges.get? k ≠ some e := Option.some_ne_none e |>.symm

theorem grounded_empty : Grounded empty where
  node_id id n h := absurd h (not_node_empty id n)
  undotted _ h := absurd h Bool.false_ne_true
  edge_id k e h := absurd h (not_edge_empty k e)
  ends k e h := absurd h (not_edge_empty k e)

theorem agrees_empty_left (g : Graph) : Agrees empty g :=
  ⟨fun id n _ h => absurd h (not_node_empty id n), fun k e _ h => absurd h (not_edge_empty k e)⟩

theorem agrees_empty_right (g : Graph) : Agrees g empty :=
  ⟨fun id _ n _ h => absurd h (not_node_empty id n), fun k _ e _ h => absurd h (not_edge_empty k e)⟩

theorem mem_missingFrom {α β : Type} {d : Dict α} {e : Dict β} {k : String} :
    k ∈ missingFrom d e ↔ d.contains k = true ∧ e.contains k = false := by
  rw [missingFrom, List.mem_filter, Dict.mem_keys, Bool.not_eq_eq_eq_not, Bool.not_true]

theorem nodup_missingFrom {α β : Type} (d : Dict α) (e : Dict β) : (missingFrom d e).Nodup :=
  d.nodup_keys.filter _

/-- What is left where all that is missing goes. -/
theorem get?_foldl_erase_missingFrom {α β : Type} {d : Dict α} {e : Dict β} {k : String} {v : α} :
    ((missingFrom d e).foldl Dict.erase d).get? k = some v ↔ d.get? k = some v ∧ e.contains k = true := by
  rw [Dict.get?_foldl_erase]
  split
  · next hk => simp [(mem_missingFrom.1 hk).2]
  · next hk =>
    refine ⟨fun hv => ⟨hv, ?_⟩, And.left⟩
    by_contra hno
    exact hk (mem_missingFrom.2 ⟨Dict.contains_of_get? hv, Bool.not_eq_true _ ▸ hno⟩)

theorem contains_foldl_erase_missingFrom {α β : Type} {d : Dict α} {e : Dict β} {k : String} :
    ((missingFrom d e).foldl Dict.erase d).contains k = true ↔ d.contains k = true ∧ e.contains k = true := by
  simp only [Dict.contains_iff (d := (missingFrom d e).foldl Dict.erase d), Dict.contains_iff (d := d),
    get?_foldl_erase_missingFrom, exists_and_right]

/-- All that is missing completes what is shared. -/
theorem get?_missingFrom {α β : Type} (d : Dict α) (e : Dict β) (k : String) :
    (if k ∈ missingFrom d e then d.get? k else (d.filter fun k _ => e.contains k).get? k) = d.get? k := by
  split
  · rfl
  · next hk =>
    rw [Dict.get?_filter]
    cases hv : d.get? k with
    | none => rfl
    | some v =>
      have hin : e.contains k = true := by
        by_contra hno
        exact hk (mem_missingFrom.2 ⟨Dict.contains_of_get? hv, Bool.not_eq_true _ ▸ hno⟩)
      rw [Option.filter_some, if_pos hin]

end Graph

namespace Manifest

theorem entries_shimPins (lattice : Option LatticeName) :
    (shimPins lattice).entries = [("in", ⟨.input, lattice⟩), ("out", ⟨.output, lattice⟩)] := by
  have hlt : ("in" : String) < "out" := by decide
  simp [shimPins, Dict.ofList, Entries.ofList, Entries.merge, Entries.mergeEntry, hlt]

theorem direction_shimPins (lattice lattice' : Option LatticeName) (pin : PinName) :
    ((shimPins lattice).get? pin).map (·.direction) = ((shimPins lattice').get? pin).map (·.direction) := by
  rw [Dict.get?, Dict.get?, entries_shimPins, entries_shimPins]
  simp only [Entries.find?]
  split <;> [rfl; split <;> rfl]

end Manifest

namespace Board

variable {b b' : Board} {naming : Naming} {g g' : Graph}

theorem Grounds.grounded (h : b.Grounds naming g) : g.Grounded where
  node_id := h.node_id
  undotted id hid := by
    obtain ⟨n, hn⟩ := Dict.contains_iff.1 hid
    rw [← h.node_id id n hn]
    rcases h.stems id n hn with ⟨slot, s, p, o, -, -, -, rfl⟩ | ⟨wire, aspect, params, lattice, he, -⟩
    · exact naming.undotted_identify (by decide) _
    · rw [he]
      exact naming.undotted_identify (by decide) _
  edge_id := h.edge_id
  ends := h.ends

/-- Nodes of one identity that stem from boards next to each other are alike. -/
theorem Beside.alike (h : b.Beside b') (hn : naming.Faithful) (hv : b.validate = .ok ())
    (hv' : b'.validate = .ok ()) {n n' : Node} (hstem : b.IsSeat naming n ∨ n.IsShim naming)
    (hstem' : b'.IsSeat naming n' ∨ n'.IsShim naming) (hid : n.id = n'.id) : n.Alike n' := by
  rcases hstem with ⟨slot, s, p, o, hs, hp, ho, rfl⟩ | ⟨wire, aspect, params, lattice, he, hk, hpins, hg⟩ <;>
    rcases hstem' with ⟨slot', s', p', o', hs', hp', ho', rfl⟩ |
      ⟨wire', aspect', params', lattice', he', hk', hpins', hg'⟩
  · have hgadget : o.id = o'.id := hn.gadget_eq hid
    obtain rfl := h.slot_eq hv hv' ho ho' hgadget
    -- the gadget stands where it stood, so that its slot has the pinout that it had
    rw [h.slots_eq, hs] at hs'
    cases hs'
    rw [h.pinouts_eq, hp] at hp'
    cases hp'
    exact ⟨hid.symm, rfl, congrArg some hgadget.symm, fun pin => rfl⟩
  · exact absurd (hid.trans he') (hn.gadgetNode_ne_shimNode o wire' aspect' params')
  · exact absurd (hid.symm.trans he) (hn.gadgetNode_ne_shimNode o' wire aspect params)
  · refine ⟨hid.symm, hk'.trans hk.symm, hg'.trans hg.symm, fun pin => ?_⟩
    rw [Node.direction?, Node.direction?, hpins, hpins']
    exact Manifest.direction_shimPins lattice' lattice pin

theorem Beside.agrees (h : b.Beside b') (hn : naming.Faithful) (hv : b.validate = .ok ())
    (hv' : b'.validate = .ok ()) (hg : b.Grounds naming g) (hg' : b'.Grounds naming g') : g.Agrees g' where
  nodes id n n' hn₁ hn₂ :=
    h.alike hn hv hv' (hg.stems id n hn₁) (hg'.stems id n' hn₂)
      ((hg.node_id id n hn₁).trans (hg'.node_id id n' hn₂).symm)
  edges k e e' he he' := by
    have hid : e.id = e'.id := (hg.edge_id k e he).trans (hg'.edge_id k e' he').symm
    exact ⟨e'.tags, hn.edge_eq (hg.spelled k e he) (hg'.spelled k e' he') hid⟩

end Board

end Patchbay
