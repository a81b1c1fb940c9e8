import Patchbay.Graph.Realization
import Patchbay.Proofs.Board.Seats
import Patchbay.Proofs.Graph.Identity

/-! What the graph of a board is made of. Each node stems from an occupant or from an aspect, and each edge is named
for its ends, which are nodes of the graph. -/

namespace Patchbay

def Node.IsShim (naming : Naming) (n : Node) : Prop :=
  ∃ wire aspect params lattice, n.id = naming.shimNode wire aspect params ∧ n.kind = .shim ∧
    n.pins = Manifest.shimPins lattice ∧ n.gadget = none

/-- The node of an occupant that stands on the board. -/
def Board.IsSeat (b : Board) (naming : Naming) (n : Node) : Prop :=
  ∃ slot s p o, b.slots.get? slot = some s ∧ b.pinouts.get? s.requires = some p ∧ b.Seated slot o ∧
    n = o.node naming slot s p

/-- The graph holds nothing but what stems from the board. -/
structure Board.Grounds (b : Board) (naming : Naming) (g : Graph) : Prop where
  node_id : ∀ id n, g.nodes.get? id = some n → n.id = id
  stems : ∀ id n, g.nodes.get? id = some n → b.IsSeat naming n ∨ n.IsShim naming
  edge_id : ∀ k e, g.edges.get? k = some e → e.id = k
  spelled : ∀ k e, g.edges.get? k = some e →
    e.id = naming.edge e.wire e.source e.sourcePin e.target e.targetPin
  ends : ∀ k e, g.edges.get? k = some e →
    g.nodes.contains e.source = true ∧ g.nodes.contains e.target = true

/-- Edges that are named for their wires and their ends by one name are the same but for their tags. -/
theorem Naming.Faithful.edge_eq {naming : Naming} (hn : naming.Faithful) {e e' : Edge}
    (he : e.id = naming.edge e.wire e.source e.sourcePin e.target e.targetPin)
    (he' : e'.id = naming.edge e'.wire e'.source e'.sourcePin e'.target e'.targetPin) (hid : e.id = e'.id) :
    e' = { e with tags := e'.tags } := by
  have hparts := hn.parts_eq (he.symm.trans (hid.trans he'))
  simp only [List.cons.injEq, and_true] at hparts
  obtain ⟨hwire, hsource, hsourcePin, htarget, htargetPin⟩ := hparts
  cases e
  cases e'
  simp_all

/-! ## Strands -/

theorem Manifest.isShim_of_shimOn? {m : Manifest} {naming : Naming} {w : Wire} {lattice : Option LatticeName}
    {aspect : AspectId} {n : Node} (h : m.shimOn? naming w lattice aspect = some n) : n.IsShim naming := by
  unfold shimOn? at h
  split at h
  · cases h
  · obtain ⟨⟨params, contributors⟩, -, rfl⟩ := Option.map_eq_some_iff.1 h
    exact ⟨w.id, aspect, params, lattice, rfl, rfl, rfl, rfl⟩

namespace Strand

/-- An edge of a strand is named for its ends, which are the pins that the strand joins or pins of its shims. -/
theorem ends_of_mem_edgesAlong {naming : Naming} {wire : WireId} {tags : Names} {source target : NodePin}
    {shims : List NodeId} {e : Edge} (h : e ∈ edgesAlong naming wire tags source shims target) :
    e.id = naming.edge e.wire e.source e.sourcePin e.target e.targetPin ∧
      ((e.source = source.node ∧ e.sourcePin = source.pin) ∨ (e.source ∈ shims ∧ e.sourcePin = "out")) ∧
      ((e.target = target.node ∧ e.targetPin = target.pin) ∨ (e.target ∈ shims ∧ e.targetPin = "in")) := by
  induction shims generalizing source with
  | nil =>
    obtain rfl := List.mem_singleton.1 h
    exact ⟨rfl, .inl ⟨rfl, rfl⟩, .inl ⟨rfl, rfl⟩⟩
  | cons shim rest ih =>
    rw [edgesAlong] at h
    rcases List.mem_cons.1 h with rfl | h
    · exact ⟨rfl, .inl ⟨rfl, rfl⟩, .inr ⟨List.mem_cons_self, rfl⟩⟩
    · obtain ⟨hid, hs, ht⟩ := ih h
      refine ⟨hid, .inr ?_, ht.imp_right fun ht => ⟨List.mem_cons_of_mem shim ht.1, ht.2⟩⟩
      rcases hs with ⟨hs, hp⟩ | ⟨hs, hp⟩
      · exact ⟨hs ▸ List.mem_cons_self, hp⟩
      · exact ⟨List.mem_cons_of_mem shim hs, hp⟩

/-- A strand adds shims, and edges between them and the two nodes that it joins. -/
structure Joins (s : Strand) (naming : Naming) (source target : NodeId) : Prop where
  shims : ∀ n ∈ s.shims, n.IsShim naming
  edges : ∀ e ∈ s.edges, e.id = naming.edge e.wire e.source e.sourcePin e.target e.targetPin ∧
    (e.source = source ∨ e.source ∈ s.shims.map (·.id)) ∧ (e.target = target ∨ e.target ∈ s.shims.map (·.id))

theorem joins_of_ofWire {r : AspectRegistry} {naming : Naming} {w : Wire} {lattice : Option LatticeName}
    {source target : NodeId} {s : Strand} (h : ofWire r naming w lattice source target = .ok s) :
    s.Joins naming source target := by
  obtain ⟨aspects, -, h⟩ := ok_of_bind h
  cases h
  refine ⟨fun n hn => ?_, fun e he => ?_⟩
  · obtain ⟨x, -, hx⟩ := List.mem_filterMap.1 hn
    exact Manifest.isShim_of_shimOn? hx
  · obtain ⟨hid, hs, ht⟩ := ends_of_mem_edgesAlong he
    exact ⟨hid, hs.imp And.left And.left, ht.imp And.left And.left⟩

end Strand

namespace Graph

theorem foldl_addNode (ns : List Node) (g : Graph) :
    ns.foldl addNode g = { g with nodes := ns.foldl (fun d n => d.insert n.id n) g.nodes } := by
  induction ns generalizing g with
  | nil => rfl
  | cons n rest ih =>
    rw [List.foldl_cons, ih]
    rfl

theorem foldl_addEdge (es : List Edge) (g : Graph) :
    es.foldl addEdge g = { g with edges := es.foldl (fun d e => d.insert e.id e) g.edges } := by
  induction es generalizing g with
  | nil => rfl
  | cons e rest ih =>
    rw [List.foldl_cons, ih]
    rfl

theorem addStrand_eq (g : Graph) (s : Strand) :
    g.addStrand s = { g with
      nodes := s.shims.foldl (fun d n => d.insert n.id n) g.nodes
      edges := s.edges.foldl (fun d e => d.insert e.id e) g.edges } := by
  rw [addStrand, foldl_addNode, foldl_addEdge]

end Graph

/-! ## The graph of a board -/

namespace Board

variable {b : Board} {naming : Naming}

theorem mem_gadgetNodes {nodes : List Node} (h : b.gadgetNodes naming = .ok nodes) :
    (∀ n ∈ nodes, b.IsSeat naming n) ∧
      ∀ slot o, b.Seated slot o → naming.gadgetNode o ∈ nodes.map (·.id) := by
  obtain ⟨lists, hm, h⟩ := ok_of_bind h
  cases h
  obtain ⟨hto, hof⟩ := mem_of_mapM hm
  have hslot {seated list} (hs : b.nodesIn naming seated = .ok list) :
      ∃ s p, b.slots.get? seated.1 = some s ∧ b.pinouts.get? s.requires = some p ∧
        list = seated.2.map fun o => o.node naming seated.1 s p := by
    unfold nodesIn at hs
    split at hs
    · cases hs
    next s hs' =>
    split at hs
    · cases hs
    next p hp =>
    cases hs
    exact ⟨s, p, hs', hp, rfl⟩
  constructor
  · intro n hn
    obtain ⟨list, hlist, hn⟩ := List.mem_flatten.1 hn
    obtain ⟨⟨slot, os⟩, hmem, hlist⟩ := hto list hlist
    obtain ⟨s, p, hs, hp, rfl⟩ := hslot hlist
    obtain ⟨o, ho, rfl⟩ := List.mem_map.1 hn
    exact ⟨slot, s, p, o, hs, hp, ⟨os, Dict.get?_eq_some_iff.2 hmem, ho⟩, rfl⟩
  · rintro slot o ⟨os, hos, ho⟩
    obtain ⟨list, hlist, hs⟩ := hof (slot, os) (Dict.get?_eq_some_iff.1 hos)
    obtain ⟨s, p, -, -, rfl⟩ := hslot hs
    have hn : o.node naming slot s p ∈ lists.flatten :=
      List.mem_flatten.2 ⟨_, hlist, List.mem_map_of_mem ho⟩
    exact List.mem_map.2 ⟨_, hn, rfl⟩

theorem seated_of_landing? {e : Endpoint} {o : Occupant} (h : b.landing? e = some o) :
    ∃ slot, b.Seated slot o := by
  unfold landing? at h
  split at h
  · exact seated_of_occupant? h
  · next slot _ _ => exact ⟨slot, mem_getD_occupants.1 (List.mem_of_mem_head? h)⟩
  · cases h

theorem joins_of_strandOf? {r : AspectRegistry} {gadgets : Graph} {w : Wire} {s : Strand}
    (h : b.strandOf? r naming gadgets w = .ok (some s)) :
    ∃ o o', (∃ slot, b.Seated slot o) ∧ (∃ slot, b.Seated slot o') ∧
      s.Joins naming (naming.gadgetNode o) (naming.gadgetNode o') := by
  unfold strandOf? at h
  split at h
  · next o o' ho ho' =>
    obtain ⟨s', hs, h⟩ := ok_of_bind h
    cases h
    exact ⟨o, o', seated_of_landing? ho, seated_of_landing? ho', Strand.joins_of_ofWire (ok_of_mapError hs)⟩
  · cases h

theorem Grounds.addStrand {g : Graph} {s : Strand} {source target : NodeId} (h : b.Grounds naming g)
    (hs : s.Joins naming source target) (hsource : g.nodes.contains source = true)
    (htarget : g.nodes.contains target = true) : b.Grounds naming (g.addStrand s) := by
  rw [Graph.addStrand_eq]
  have hend {id x : NodeId} (hx : g.nodes.contains x = true) (he : id = x ∨ id ∈ s.shims.map (·.id)) :
      (s.shims.foldl (fun d n => d.insert n.id n) g.nodes).contains id = true := by
    rw [Dict.contains_foldl_insert (fun n : Node => n.id)]
    rcases he with rfl | he
    · exact .inr hx
    · exact .inl he
  refine ⟨fun id n hn => ?_, fun id n hn => ?_, fun k e he => ?_, fun k e he => ?_, fun k e he => ?_⟩
  · rcases Dict.mem_of_get?_foldl_insert hn with ⟨-, hid⟩ | hn
    · exact hid
    · exact h.node_id id n hn
  · rcases Dict.mem_of_get?_foldl_insert hn with ⟨hn, -⟩ | hn
    · exact .inr (hs.shims n hn)
    · exact h.stems id n hn
  · rcases Dict.mem_of_get?_foldl_insert he with ⟨-, hk⟩ | he
    · exact hk
    · exact h.edge_id k e he
  · rcases Dict.mem_of_get?_foldl_insert he with ⟨he, -⟩ | he
    · exact (hs.edges e he).1
    · exact h.spelled k e he
  · rcases Dict.mem_of_get?_foldl_insert he with ⟨he, -⟩ | he
    · obtain ⟨-, hes, het⟩ := hs.edges e he
      exact ⟨hend hsource hes, hend htarget het⟩
    · obtain ⟨hes, het⟩ := h.ends k e he
      exact ⟨hend hes (.inl rfl), hend het (.inl rfl)⟩

theorem grounds_of_realize {r : AspectRegistry} {g : Graph} (h : b.realize r naming = .ok g) :
    b.Grounds naming g := by
  obtain ⟨nodes, hnodes, h⟩ := ok_of_bind h
  obtain ⟨strands, hstrands, h⟩ := ok_of_bind h
  cases h
  obtain ⟨hseat, hall⟩ := mem_gadgetNodes (ok_of_mapError hnodes)
  -- wires are placed on a graph that has a node for every occupant
  let P (g : Graph) : Prop := b.Grounds naming g ∧
    ∀ slot o, b.Seated slot o → g.nodes.contains (naming.gadgetNode o) = true
  have hgadgets : P (nodes.foldl Graph.addNode .empty) := by
    rw [Graph.foldl_addNode]
    refine ⟨⟨fun id n hn => ?_, fun id n hn => ?_, nofun, nofun, nofun⟩, fun slot o ho => ?_⟩
    · rcases Dict.mem_of_get?_foldl_insert hn with ⟨-, hid⟩ | hn
      · exact hid
      · cases hn
    · rcases Dict.mem_of_get?_foldl_insert hn with ⟨hn, -⟩ | hn
      · exact .inl (hseat n hn)
      · cases hn
    · exact (Dict.contains_foldl_insert (fun n : Node => n.id) ..).2 (.inl (hall slot o ho))
  have hplace : ∀ g, ∀ x ∈ strands, P g → P (g.placeWire x) := by
    rintro g ⟨wire, strand⟩ hx ⟨hg, hin⟩
    cases strand with
    | none => exact ⟨⟨hg.node_id, hg.stems, hg.edge_id, hg.spelled, hg.ends⟩, hin⟩
    | some s =>
      obtain ⟨w, -, hw⟩ := (mem_of_mapM hstrands).1 _ hx
      obtain ⟨_, hs, hw⟩ := ok_of_bind hw
      cases hw
      obtain ⟨o, o', ⟨slot, ho⟩, ⟨slot', ho'⟩, hj⟩ := joins_of_strandOf? hs
      refine ⟨hg.addStrand hj (hin slot o ho) (hin slot' o' ho'), fun slot o ho => ?_⟩
      rw [Graph.placeWire, Graph.addStrand_eq]
      exact (Dict.contains_foldl_insert (fun n : Node => n.id) ..).2 (.inr (hin slot o ho))
  exact (foldl_keeps hplace hgadgets).1

end Board

end Patchbay
