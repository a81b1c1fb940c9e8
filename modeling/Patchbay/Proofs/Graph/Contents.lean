import Patchbay.Proofs.Graph.Strand

/-! What the graph of a valid board holds: the nodes of its occupants, the strands of its wires, and nothing else.
Things that differ have different identities, so that none takes the place of another. -/

namespace Patchbay

namespace Graph

theorem contains_edges_foldl_placeWire {strands : List (WireId × Option Strand)} {g : Graph} {id : EdgeId} :
    (strands.foldl placeWire g).edges.contains id = true ↔
      g.edges.contains id = true ∨ ∃ x ∈ strands, ∃ s, x.2 = some s ∧ id ∈ s.edges.map (·.id) := by
  induction strands generalizing g with
  | nil => simp
  | cons x rest ih =>
    rw [List.foldl_cons, ih, List.exists_mem_cons_iff, ← or_assoc]
    refine or_congr_left ?_
    obtain ⟨wire, strand⟩ := x
    cases strand with
    | none => simp [placeWire]
    | some s =>
      rw [placeWire, addStrand_eq, Dict.contains_foldl_insert (fun e : Edge => e.id), or_comm]
      simp

end Graph

namespace Board

variable {b : Board} {r : AspectRegistry} {naming : Naming} {g : Graph} {w w' : Wire} {s s' : Strand}

/-- A wire of the board comes to a strand. -/
def Strung (b : Board) (r : AspectRegistry) (naming : Naming) (w : Wire) (s : Strand) : Prop :=
  w ∈ b.wires ∧ ∃ nodes, b.gadgetNodes naming = .ok nodes ∧
    b.strandOf? r naming (nodes.foldl Graph.addNode .empty) w = .ok (some s)

theorem seat_of_seated (hv : b.validate = .ok ()) (naming : Naming) {slot : SlotName} {o : Occupant}
    (ho : b.Seated slot o) : ∃ sl p, b.IsSeat naming (o.node naming slot sl p) := by
  obtain ⟨list, hl, hmem⟩ := ho
  obtain ⟨sl, hsl⟩ := Dict.contains_iff.1 ((placed_of_validate hv).declared slot list hl)
  have hcheck := ok_of_forM (validate_eq_ok.1 hv).1 (slot, sl) (Dict.get?_eq_some_iff.1 hsl)
  simp only at hcheck
  split at hcheck
  · next hp =>
    obtain ⟨p, hp⟩ := Dict.contains_iff.1 hp
    exact ⟨sl, p, slot, sl, p, o, hsl, hp, ⟨list, hl, hmem⟩, rfl⟩
  · cases hcheck

/-- A strand leads from the gadget that its wire lands on at one end to that at the other. -/
theorem Strung.ofWire (h : b.Strung r naming w s) : ∃ o o' lattice, b.landing? w.source = some o ∧
    b.landing? w.target = some o' ∧
    Strand.ofWire r naming w lattice (naming.gadgetNode o) (naming.gadgetNode o') = .ok s := by
  obtain ⟨-, nodes, -, h⟩ := h
  unfold strandOf? at h
  split at h
  · next o o' ho ho' =>
    obtain ⟨s', hs, h⟩ := ok_of_bind h
    cases h
    exact ⟨o, o', _, ho, ho', ok_of_mapError hs⟩
  · cases h

theorem Strung.lands (h : b.Strung r naming w s) : b.Lands w := by
  obtain ⟨o, o', -, ho, ho', -⟩ := h.ofWire
  exact ⟨⟨o, ho⟩, o', ho'⟩

/-- The wires that land on gadgets have a strand, if the board can be realized. -/
theorem exists_strung (hg : b.realize r naming = .ok g) (hw : w ∈ b.wires) (hl : b.Lands w) :
    ∃ s, b.Strung r naming w s := by
  obtain ⟨nodes, hnodes, h⟩ := ok_of_bind hg
  obtain ⟨strands, hstrands, h⟩ := ok_of_bind h
  obtain ⟨_, -, hstep⟩ := (mem_of_mapM hstrands).2 w hw
  obtain ⟨x, hx, -⟩ := ok_of_bind hstep
  cases x with
  | none => exact absurd hl (strandOf?_eq_none.1 hx)
  | some s => exact ⟨s, hw, nodes, ok_of_mapError hnodes, hx⟩

theorem Strung.unique (hv : b.validate = .ok ()) (h : b.Strung r naming w s) (h' : b.Strung r naming w' s')
    (hid : w.id = w'.id) : w = w' ∧ s = s' := by
  obtain ⟨hw, nodes, hnodes, hs⟩ := h
  obtain ⟨hw', nodes', hnodes', hs'⟩ := h'
  have hnodup := (checkWires_eq_ok.1 (validate_eq_ok.1 hv).2.2).2
  obtain rfl := List.inj_on_of_nodup_map hnodup hw hw' hid
  rw [hnodes] at hnodes'
  cases hnodes'
  rw [hs] at hs'
  cases hs'
  exact ⟨rfl, rfl⟩

/-! ## Where things stem from -/

theorem stem_of_node (hg : b.realize r naming = .ok g) {id : NodeId} {n : Node} (hget : g.nodes.get? id = some n) :
    n.id = id ∧ (b.IsSeat naming n ∨ ∃ w s, b.Strung r naming w s ∧ n ∈ s.shims) := by
  obtain ⟨nodes, hnodes, -, hof, -⟩ := parts_of_realize hg
  refine ⟨(grounds_of_realize hg).node_id id n hget, ?_⟩
  rcases hof id n hget with hn | ⟨w, hw, s, hs, hn⟩
  · exact .inl ((mem_gadgetNodes hnodes).1 n hn)
  · exact .inr ⟨w, s, ⟨hw, nodes, hnodes, hs⟩, hn⟩

theorem stem_of_edge (hg : b.realize r naming = .ok g) {k : EdgeId} {e : Edge} (hget : g.edges.get? k = some e) :
    e.id = k ∧ ∃ w s, b.Strung r naming w s ∧ e ∈ s.edges := by
  obtain ⟨nodes, hnodes, -, -, hedge⟩ := parts_of_realize hg
  obtain ⟨w, hw, s, hs, he⟩ := hedge k e hget
  exact ⟨(grounds_of_realize hg).edge_id k e hget, w, s, ⟨hw, nodes, hnodes, hs⟩, he⟩

/-- All of a strand has its place in the graph, if not for itself. -/
theorem Strung.contains (h : b.Strung r naming w s) (hg : b.realize r naming = .ok g) :
    (∀ n ∈ s.shims, g.nodes.contains n.id = true) ∧ ∀ e ∈ s.edges, g.edges.contains e.id = true := by
  obtain ⟨hw, nodes, hnodes, hs⟩ := h
  obtain ⟨nodes', hnodes', hg⟩ := ok_of_bind hg
  obtain ⟨strands, hstrands, hg⟩ := ok_of_bind hg
  cases hg
  rw [hnodes] at hnodes'
  cases hnodes'
  obtain ⟨y, hy, hstep⟩ := (mem_of_mapM hstrands).2 w hw
  obtain ⟨x, hx, hstep⟩ := ok_of_bind hstep
  rw [hs] at hx
  cases hx
  cases hstep
  constructor
  · intro n hn
    exact Graph.contains_foldl_placeWire.2 (.inr ⟨_, hy, s, rfl, List.mem_map_of_mem hn⟩)
  · intro e he
    exact Graph.contains_edges_foldl_placeWire.2 (.inr ⟨_, hy, s, rfl, List.mem_map_of_mem he⟩)

theorem contains_nodes_iff (hg : b.realize r naming = .ok g) {id : NodeId} : g.nodes.contains id = true ↔
    (∃ nodes, b.gadgetNodes naming = .ok nodes ∧ id ∈ nodes.map (·.id)) ∨
      ∃ w s, b.Strung r naming w s ∧ id ∈ s.shims.map (·.id) := by
  obtain ⟨nodes, hnodes, hin, hof, -⟩ := parts_of_realize hg
  constructor
  · intro h
    obtain ⟨n, hget⟩ := Dict.contains_iff.1 h
    obtain rfl := (grounds_of_realize hg).node_id id n hget
    rcases hof n.id n hget with hn | ⟨w, hw, s, hs, hn⟩
    · exact .inl ⟨nodes, hnodes, List.mem_map_of_mem hn⟩
    · exact .inr ⟨w, s, ⟨hw, nodes, hnodes, hs⟩, List.mem_map_of_mem hn⟩
  · rintro (⟨nodes', hnodes', hid⟩ | ⟨w, s, hs, hid⟩)
    · cases hnodes.symm.trans hnodes'
      obtain ⟨n, hn, rfl⟩ := List.mem_map.1 hid
      exact hin n hn
    · obtain ⟨n, hn, rfl⟩ := List.mem_map.1 hid
      exact (hs.contains hg).1 n hn

theorem contains_edges_iff (hg : b.realize r naming = .ok g) {k : EdgeId} :
    g.edges.contains k = true ↔ ∃ w s, b.Strung r naming w s ∧ k ∈ s.edges.map (·.id) := by
  constructor
  · intro h
    obtain ⟨e, hget⟩ := Dict.contains_iff.1 h
    obtain ⟨rfl, w, s, hs, he⟩ := stem_of_edge hg hget
    exact ⟨w, s, hs, List.mem_map_of_mem he⟩
  · rintro ⟨w, s, hs, hk⟩
    obtain ⟨e, he, rfl⟩ := List.mem_map.1 hk
    exact (hs.contains hg).2 e he

/-! ## Identities -/

/-- No shim is taken for a gadget. -/
theorem Strung.id_ne_gadgetNode (hn : naming.Faithful) (h : b.Strung r naming w s) {n : Node} (hm : n ∈ s.shims)
    (o : Occupant) : n.id ≠ naming.gadgetNode o := by
  obtain ⟨_, _, _, -, -, hs⟩ := h.ofWire
  obtain ⟨aspect, -, -, he⟩ := Strand.shim_of_mem hs hm
  exact fun hid => hn.gadgetNode_ne_shimNode o w.id aspect n.params (hid.symm.trans he)

theorem Strung.eq_of_shim (hn : naming.Faithful) (hv : b.validate = .ok ()) (h : b.Strung r naming w s)
    (h' : b.Strung r naming w' s') {n n' : Node} (hm : n ∈ s.shims) (hm' : n' ∈ s'.shims) (hid : n.id = n'.id) :
    w = w' ∧ s = s' ∧ n = n' := by
  obtain ⟨_, _, _, -, -, hs⟩ := h.ofWire
  obtain ⟨_, _, _, -, -, hs'⟩ := h'.ofWire
  obtain ⟨aspect, -, -, he⟩ := Strand.shim_of_mem hs hm
  obtain ⟨aspect', -, -, he'⟩ := Strand.shim_of_mem hs' hm'
  have hparts := hn.parts_eq (he.symm.trans (hid.trans he'))
  simp only [List.cons.injEq] at hparts
  obtain ⟨rfl, rfl⟩ := h.unique hv h' hparts.2.1
  exact ⟨rfl, rfl, List.inj_on_of_nodup_map (Strand.nodup_shims_of_ofWire hn hs) hm hm' hid⟩

theorem Strung.wire_of_edge (h : b.Strung r naming w s) {e : Edge} (hm : e ∈ s.edges) : e.wire = w.id := by
  obtain ⟨_, _, _, -, -, hs⟩ := h.ofWire
  exact ((Strand.edges_of_ofWire hs).2.1 e hm).1

theorem Strung.eq_of_edge (hn : naming.Faithful) (hv : b.validate = .ok ()) (h : b.Strung r naming w s)
    (h' : b.Strung r naming w' s') {e e' : Edge} (hm : e ∈ s.edges) (hm' : e' ∈ s'.edges) (hid : e.id = e'.id) :
    w = w' ∧ s = s' ∧ e = e' := by
  obtain ⟨_, _, _, -, -, hs⟩ := h.ofWire
  obtain ⟨_, _, _, -, -, hs'⟩ := h'.ofWire
  have hedge := hn.edge_eq ((Strand.joins_of_ofWire hs).edges e hm).1 ((Strand.joins_of_ofWire hs').edges e' hm').1 hid
  have hwire : e'.wire = e.wire := by rw [hedge]
  obtain ⟨rfl, rfl⟩ := h.unique hv h' ((h.wire_of_edge hm).symm.trans (hwire.symm.trans (h'.wire_of_edge hm')))
  rw [← (Strand.edges_of_ofWire hs).2.2 e hm e' hm'] at hedge
  exact ⟨rfl, rfl, hedge.symm⟩

theorem get?_shim (hn : naming.Faithful) (hv : b.validate = .ok ()) (hg : b.realize r naming = .ok g)
    (h : b.Strung r naming w s) {n : Node} (hm : n ∈ s.shims) : g.nodes.get? n.id = some n := by
  obtain ⟨n', hn'⟩ := Dict.contains_iff.1 ((h.contains hg).1 n hm)
  obtain ⟨hid, hseat | ⟨w', s', h', hm'⟩⟩ := stem_of_node hg hn'
  · obtain ⟨_, _, _, o, -, -, -, rfl⟩ := hseat
    exact absurd hid.symm (h.id_ne_gadgetNode hn hm o)
  · rw [hn', (h'.eq_of_shim hn hv h hm' hm hid).2.2]

theorem get?_edge (hn : naming.Faithful) (hv : b.validate = .ok ()) (hg : b.realize r naming = .ok g)
    (h : b.Strung r naming w s) {e : Edge} (hm : e ∈ s.edges) : g.edges.get? e.id = some e := by
  obtain ⟨e', he'⟩ := Dict.contains_iff.1 ((h.contains hg).2 e hm)
  obtain ⟨hid, w', s', h', hm'⟩ := stem_of_edge hg he'
  rw [he', (h'.eq_of_edge hn hv h hm' hm hid).2.2]

/-! ## Contents -/

/-- The nodes of a graph are those of the occupants and the shims of the strands, each under its own identity. -/
theorem get?_nodes_iff (hn : naming.Faithful) (hv : b.validate = .ok ()) (hg : b.realize r naming = .ok g) {id : NodeId}
    {n : Node} : g.nodes.get? id = some n ↔
      n.id = id ∧ (b.IsSeat naming n ∨ ∃ w s, b.Strung r naming w s ∧ n ∈ s.shims) := by
  refine ⟨stem_of_node hg, ?_⟩
  rintro ⟨rfl, hseat | ⟨w, s, h, hm⟩⟩
  · exact get?_seat hn hv hg hseat
  · exact get?_shim hn hv hg h hm

/-- The edges of a graph are those of the strands, each under its own identity. -/
theorem get?_edges_iff (hn : naming.Faithful) (hv : b.validate = .ok ()) (hg : b.realize r naming = .ok g) {k : EdgeId}
    {e : Edge} : g.edges.get? k = some e ↔ e.id = k ∧ ∃ w s, b.Strung r naming w s ∧ e ∈ s.edges := by
  refine ⟨stem_of_edge hg, ?_⟩
  rintro ⟨rfl, w, s, h, hm⟩
  exact get?_edge hn hv hg h hm

theorem mem_edgesOn_iff (hn : naming.Faithful) (hv : b.validate = .ok ()) (hg : b.realize r naming = .ok g)
    (h : b.Strung r naming w s) {e : Edge} : e ∈ g.edgesOn w.id ↔ e ∈ s.edges := by
  rw [Graph.edgesOn, List.mem_filter, beq_iff_eq]
  constructor
  · rintro ⟨hmem, he⟩
    obtain ⟨k, hk⟩ := Dict.mem_values.1 hmem
    obtain ⟨-, w', s', h', hm'⟩ := stem_of_edge hg hk
    obtain ⟨-, rfl⟩ := h'.unique hv h ((h'.wire_of_edge hm').symm.trans he)
    exact hm'
  · intro hm
    exact ⟨Dict.mem_values.2 ⟨_, get?_edge hn hv hg h hm⟩, h.wire_of_edge hm⟩

end Board

end Patchbay
