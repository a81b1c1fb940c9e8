import Patchbay.Proofs.Graph.Contents

/-! The shape of a realized graph. A valid board that is realized has one node for each of its occupants, and each wire
that lands has its edges in one chain, from gadget to gadget over the shims of its aspects. -/

namespace Patchbay

/-- The nodes of gadgets, in the order of their identities. -/
def Graph.gadgets (g : Graph) : List Node := g.nodes.values.filter fun n => n.kind = .gadget

/-- What stands between two nodes on behalf of a wire: shims for the aspects `ids`, in canonical order, with the edges
that lead over them. -/
structure Graph.Spans (g : Graph) (r : AspectRegistry) (w : Wire) (source target : NodeId) (ids : List AspectId)
    (shims : List Node) (edges : List Edge) : Prop where
  edgesOn_perm : (g.edgesOn w.id).Perm edges
  chained : Chained ⟨source, w.source.pin⟩ (shims.map (·.id)) ⟨target, w.target.pin⟩ edges
  shims_nodup : (shims.map (·.id)).Nodup
  get?_shims : ∀ n ∈ shims, g.nodes.get? n.id = some n
  alone : ∀ n ∈ shims, ∀ e ∈ g.edges.values, e.source = n.id ∨ e.target = n.id → e.wire = w.id
  shimOf : List.Forall₂ (fun aspect n => ∃ m, r.get? aspect = some m ∧ n.ShimOf w aspect m) ids shims
  ids_before : ids.Pairwise r.Before
  mem_ids : ∀ aspect, aspect ∈ ids ↔ (∃ a ∈ w.aspects, a.aspect = aspect) ∧
    ∃ m, r.get? aspect = some m ∧ m.isControlPlane = false ∧ m.Contributes (w.declared aspect)
  tags : ∀ e ∈ edges, ∀ tag, e.tags.contains tag = true ↔
    ∃ a ∈ w.aspects, ∃ m, r.get? a.aspect = some m ∧ m.isControlPlane = true ∧ tag = Manifest.tag a.aspect
  shimsOn? : g.shimsOn? w.id = some shims

namespace Board

/-- An endpoint means the gadget that it names, or the first in the slot that it names. -/
def Means (b : Board) (e : Endpoint) (o : Occupant) : Prop :=
  (e.gadget = some o.id ∧ ∃ slot, b.Seated slot o) ∨
    ∃ slot rest, e.gadget = none ∧ e.slot = some slot ∧ b.occupants.get? slot = some (o :: rest)

/-- An endpoint is open while it names a slot without an occupant. -/
def Open (b : Board) (e : Endpoint) : Prop := ∃ slot, e.slot = some slot ∧ ∀ o, ¬ b.Seated slot o

/-- A graph has the shape of a board: a node for each occupant and no other gadget, wires with an open end deferred, and
the others spanned between the gadgets that they mean. -/
structure Shapes (b : Board) (r : AspectRegistry) (g : Graph) : Prop where
  gadgets : (g.gadgets.map fun n => (n.slot, n.gadget, n.template, n.params)).Perm
    (b.seats.map fun x => (some x.1, some x.2.2.id, x.2.2.template, x.2.2.params))
  deferred : ∀ id, g.deferred.contains id = true ↔ ∃ w ∈ b.wires, w.id = id ∧ (b.Open w.source ∨ b.Open w.target)
  spans : ∀ w ∈ b.wires, g.deferred.contains w.id = false → ∃ o o' source target ids shims edges,
    b.Means w.source o ∧ g.gadgetNode? o.id = some source ∧ b.Means w.target o' ∧ g.gadgetNode? o'.id = some target ∧
      g.Spans r w source.id target.id ids shims edges

variable {b : Board} {r : AspectRegistry} {naming : Naming} {g : Graph} {w : Wire} {s : Strand}

/-! ## Occupants and their nodes -/

theorem forall₂_nodesIn {seated : SlotName × List Occupant} {nodes : List Node}
    (h : b.nodesIn naming seated = .ok nodes) :
    List.Forall₂ (fun x n => ∃ sl p, n = x.2.2.node naming x.1 sl p)
      (seated.2.mapIdx fun i o => (seated.1, i, o)) nodes := by
  obtain ⟨slot, os⟩ := seated
  unfold nodesIn at h
  split at h
  · cases h
  next sl hsl =>
  split at h
  · cases h
  next p hp =>
  cases h
  rw [List.forall₂_map_right_iff, List.forall₂_iff_get]
  refine ⟨List.length_mapIdx, fun i hi hi' => ⟨sl, p, ?_⟩⟩
  simp

/-- The nodes of gadgets are those of the seats, one by one. -/
theorem forall₂_gadgetNodes {nodes : List Node} (h : b.gadgetNodes naming = .ok nodes) :
    List.Forall₂ (fun x n => ∃ sl p, n = x.2.2.node naming x.1 sl p) b.seats nodes := by
  obtain ⟨lists, hlists, he⟩ := ok_of_bind h
  cases he
  clear h
  rw [seats]
  generalize b.occupants.entries = l at hlists
  induction l generalizing lists with
  | nil =>
    cases hlists
    exact .nil
  | cons seated rest ih =>
    rw [List.mapM_cons] at hlists
    obtain ⟨nodes, hnodes, hlists⟩ := ok_of_bind hlists
    obtain ⟨lists', hlists', hlists⟩ := ok_of_bind hlists
    cases hlists
    exact List.rel_append (forall₂_nodesIn hnodes) (ih lists' hlists')

theorem map_gadgetNodes {α : Type} {nodes : List Node} {f : Node → α} {f' : SlotName × Nat × Occupant → α}
    (hf : ∀ x sl p, f (x.2.2.node naming x.1 sl p) = f' x) (h : b.gadgetNodes naming = .ok nodes) :
    nodes.map f = b.seats.map f' := by
  rw [← List.forall₂_eq_eq_eq, List.forall₂_map_left_iff, List.forall₂_map_right_iff]
  refine (forall₂_gadgetNodes h).flip.imp ?_
  rintro _ x ⟨sl, p, rfl⟩
  exact hf x sl p

theorem nodup_seats (hv : b.validate = .ok ()) : (b.seats.map fun x => x.2.2.id).Nodup := by
  have hnodup := (checkOccupants_eq_ok.1 (validate_eq_ok.1 hv).2.1).2
  have hids : (b.seats.map fun x => x.2.2.id) = b.occupants.entries.flatMap fun seated => seated.2.map (·.id) := by
    rw [seats, List.map_flatMap]
    congr 1
    funext seated
    apply List.ext_getElem <;> simp
  rwa [hids]

theorem mem_gadgets_iff (hn : naming.Faithful) (hv : b.validate = .ok ()) (hg : b.realize r naming = .ok g) {n : Node} :
    n ∈ g.gadgets ↔ b.IsSeat naming n := by
  rw [Graph.gadgets, List.mem_filter, decide_eq_true_iff]
  constructor
  · rintro ⟨hmem, hk⟩
    obtain ⟨id, hget⟩ := Dict.mem_values.1 hmem
    exact (anchored_of_realize hn hv hg).seats id n hget hk
  · intro hs
    exact ⟨Dict.mem_values.2 ⟨n.id, get?_seat hn hv hg hs⟩, hs.kind_eq⟩

/-- The nodes of gadgets in the graph are those of the occupants, each once. -/
theorem perm_gadgets (hn : naming.Faithful) (hv : b.validate = .ok ()) (hg : b.realize r naming = .ok g)
    {nodes : List Node} (hnodes : b.gadgetNodes naming = .ok nodes) : g.gadgets.Perm nodes := by
  have hnodup : (nodes.map (·.gadget)).Nodup := by
    have hids : nodes.map (·.gadget) = (b.seats.map fun x => x.2.2.id).map some :=
      (map_gadgetNodes (fun _ _ _ => rfl) hnodes).trans List.map_map.symm
    exact hids ▸ (nodup_seats hv).map (Option.some_injective _)
  have hvalues : g.nodes.values.Nodup := Dict.nodup_values (grounds_of_realize hg).node_id
  have hgadgets : g.gadgets.Nodup := hvalues.filter _
  refine (List.perm_ext_iff_of_nodup hgadgets hnodup.of_map).2 fun n => ?_
  rw [mem_gadgets_iff hn hv hg]
  exact ⟨fun hs => (get?_gadgets hn hv hnodes hs).1, (mem_gadgetNodes hnodes).1 n⟩

/-- A gadget of the board is found in the graph by its name. -/
theorem gadgetNode?_of_seated (hn : naming.Faithful) (hv : b.validate = .ok ()) (hg : b.realize r naming = .ok g)
    {slot : SlotName} {o : Occupant} (ho : b.Seated slot o) :
    ∃ sl p, g.gadgetNode? o.id = some (o.node naming slot sl p) ∧ b.IsSeat naming (o.node naming slot sl p) := by
  obtain ⟨sl, p, hs⟩ := seat_of_seated hv naming ho
  refine ⟨sl, p, find?_eq_some_of_unique (Dict.mem_values.2 ⟨_, get?_seat hn hv hg hs⟩) ?_ fun n hmem hfound => ?_, hs⟩
  · simp [Occupant.node]
  · rw [Bool.and_eq_true, decide_eq_true_iff, beq_iff_eq] at hfound
    have hs' : b.IsSeat naming n := (mem_gadgets_iff hn hv hg).1 (List.mem_filter.2 ⟨hmem, by simpa using hfound.1⟩)
    obtain ⟨slot', sl', p', o', hsl', hp', ho', rfl⟩ := hs'
    have hid : o'.id = o.id := Option.some.inj hfound.2
    obtain rfl := occupant_eq_of_validate hv (slot_eq_of_validate hv ho' ho hid ▸ ho') ho hid
    exact (Beside.refl b).seat_eq hn hv hv ⟨slot', sl', p', o', hsl', hp', ho', rfl⟩ hs rfl

/-! ## Endpoints -/

/-- An endpoint of a valid board names a slot or a gadget, and a gadget that stands on the board. -/
theorem names_of_pinoutAt {wire : WireId} {e : Endpoint} {p : Pinout} (hp : b.pinoutAt wire e = .ok p) :
    (∃ slot, e.slot = some slot ∧ e.gadget = none) ∨
      ∃ slot o, e.slot = none ∧ e.gadget = some o.id ∧ b.Seated slot o ∧ b.occupant? o.id = some o := by
  obtain ⟨slot, hslot, -⟩ := ok_of_bind hp
  unfold slotAt at hslot
  split at hslot
  · next slot hs hg => exact .inl ⟨slot, hs, hg⟩
  · next gadget hs hg =>
    split at hslot
    · next slot' i hfind =>
      obtain ⟨o, hseat, rfl⟩ := seat_of_slotOf? hfind
      obtain ⟨_, _, o', hseat', hid, -, hoccupant⟩ := seat_of_find? (seated_of_mem_seats hseat)
      exact .inr ⟨_, o', hs, hid ▸ hg, seated_of_mem_seats hseat', hid ▸ hoccupant⟩
    · cases hslot
  · cases hslot

theorem means_of_landing? {wire : WireId} {e : Endpoint} {p : Pinout} (hp : b.pinoutAt wire e = .ok p) {o : Occupant}
    (ho : b.landing? e = some o) : b.Means e o := by
  rcases names_of_pinoutAt hp with ⟨slot, hs, hgadget⟩ | ⟨slot, o', -, hgadget, hseat, hoccupant⟩
  · rw [landing?, hgadget, hs] at ho
    have ho : (b.occupants.getD slot []).head? = some o := ho
    rw [Dict.getD] at ho
    cases hl : b.occupants.get? slot with
    | none =>
      rw [hl] at ho
      cases ho
    | some list =>
      rw [hl] at ho
      obtain ⟨rest, rfl⟩ := List.head?_eq_some_iff.1 ho
      exact .inr ⟨slot, rest, hgadget, hs, hl⟩
  · rw [landing?, hgadget] at ho
    obtain rfl : o' = o := Option.some.inj (hoccupant.symm.trans ho)
    exact .inl ⟨hgadget, slot, hseat⟩

/-- An endpoint of a valid board lands on nothing where it is open. -/
theorem open_iff {wire : WireId} {e : Endpoint} {p : Pinout} (hp : b.pinoutAt wire e = .ok p) :
    b.Open e ↔ ¬ ∃ o, b.landing? e = some o := by
  rcases names_of_pinoutAt hp with ⟨slot, hs, hgadget⟩ | ⟨slot, o, hs, hgadget, -, hoccupant⟩
  · have hland : b.landing? e = (b.occupants.getD slot []).head? := by rw [landing?, hgadget, hs]
    rw [hland]
    constructor
    · rintro ⟨slot', hs', hno⟩ ⟨o, ho⟩
      obtain rfl : slot = slot' := Option.some.inj (hs.symm.trans hs')
      exact hno o (mem_getD_occupants.1 (List.mem_of_mem_head? ho))
    · intro hno
      refine ⟨slot, hs, fun o ho => hno ?_⟩
      exact ⟨_, List.head?_eq_some_head (List.ne_nil_of_mem (mem_getD_occupants.2 ho))⟩
  · constructor
    · rintro ⟨slot', hs', -⟩
      rw [hs] at hs'
      cases hs'
    · intro hno
      refine absurd ⟨o, ?_⟩ hno
      rw [landing?, hgadget]
      exact hoccupant

theorem open_iff_of_mem (hv : b.validate = .ok ()) (hw : w ∈ b.wires) :
    (b.Open w.source ∨ b.Open w.target) ↔ ¬ b.Lands w := by
  obtain ⟨⟨p, hp, -⟩, q, hq, -⟩ := ends_of_validate hv w hw
  rw [open_iff hp, open_iff hq, Lands, not_and_or]

/-! ## Spans -/

/-- A shim lies on its own wire alone. -/
theorem Strung.wire_eq_of_touches (hn : naming.Faithful) (hv : b.validate = .ok ()) (hg : b.realize r naming = .ok g)
    (h : b.Strung r naming w s) {n : Node} (hm : n ∈ s.shims) {e : Edge} (he : e ∈ g.edges.values)
    (hends : e.source = n.id ∨ e.target = n.id) : e.wire = w.id := by
  obtain ⟨k, hk⟩ := Dict.mem_values.1 he
  obtain ⟨-, w', s', h', hm'⟩ := stem_of_edge hg hk
  obtain ⟨o, o', _, -, -, hs'⟩ := h'.ofWire
  obtain ⟨-, hsource, htarget⟩ := (Strand.joins_of_ofWire hs').edges e hm'
  -- an end of the edge that is this shim is no gadget, and so it is a shim of the edge's own wire
  have hsame {id : NodeId} {o : Occupant} (hid : id = n.id)
      (hend : id = naming.gadgetNode o ∨ id ∈ s'.shims.map (·.id)) : w = w' := by
    rcases hend with hgadget | hin
    · exact absurd (hid.symm.trans hgadget) (h.id_ne_gadgetNode hn hm o)
    · obtain ⟨n', hn', he⟩ := List.mem_map.1 hin
      exact (h.eq_of_shim hn hv h' hm hn' (hid.symm.trans he.symm)).1
  have hwire : w = w' := hends.elim (fun hid => hsame hid hsource) fun hid => hsame hid htarget
  rw [hwire, h'.wire_of_edge hm']

/-- The graph spans a wire by its strand. -/
theorem Strung.spans (hn : naming.Faithful) (hv : b.validate = .ok ()) (hg : b.realize r naming = .ok g)
    (h : b.Strung r naming w s) {o o' : Occupant} {lattice : Option LatticeName} {slot slot' : SlotName}
    (ho : b.Seated slot o) (ho' : b.Seated slot' o')
    (hs : Strand.ofWire r naming w lattice (naming.gadgetNode o) (naming.gadgetNode o') = .ok s) :
    ∃ ids, g.Spans r w (naming.gadgetNode o) (naming.gadgetNode o') ids s.shims s.edges := by
  obtain ⟨ids, hbefore, -, hmem, hstands⟩ := Strand.shims_of_ofWire hs
  obtain ⟨hchained, htags, -⟩ := Strand.edges_of_ofWire hs
  have hnodup : (s.shims.map (·.id)).Nodup := Strand.nodup_shims_of_ofWire hn hs
  have hget : ∀ n ∈ s.shims, g.nodes.get? n.id = some n := fun n hm => get?_shim hn hv hg h hm
  have hgadget {slot o} (ho : b.Seated slot o) :
      ∃ t, g.nodes.get? (naming.gadgetNode o) = some t ∧ t.kind = .gadget := by
    obtain ⟨sl, p, -, hs⟩ := gadgetNode?_of_seated hn hv hg ho
    exact ⟨_, get?_seat hn hv hg hs, rfl⟩
  have hedges : (s.edges.map (·.source)).Nodup := by
    rw [hchained.map_source]
    refine List.nodup_cons.2 ⟨fun hin => ?_, hnodup⟩
    obtain ⟨n, hm, hid⟩ := List.mem_map.1 hin
    exact h.id_ne_gadgetNode hn hm o hid
  refine ⟨ids, {
    edgesOn_perm := ?_
    chained := hchained
    shims_nodup := hnodup
    get?_shims := hget
    alone := fun n hm e he hends => h.wire_eq_of_touches hn hv hg hm he hends
    shimOf := hstands.imp fun aspect n ⟨m, hm, hshim⟩ => ⟨m, hm, (Manifest.shimOf_of_shimOn? hshim).1⟩
    ids_before := hbefore
    mem_ids := hmem
    tags := fun e he => (htags e he).2
    shimsOn? := ?_ }⟩
  · refine (List.perm_ext_iff_of_nodup ?_ hedges.of_map).2 fun e => mem_edgesOn_iff hn hv hg h
    exact (Dict.nodup_values (grounds_of_realize hg).edge_id).filter _
  · refine Graph.shimsOn?_of_chained (fun n hm => ⟨hget n hm, ?_⟩) hnodup (hgadget ho) (hgadget ho')
      (fun e => mem_edgesOn_iff hn hv hg h) hchained
    obtain ⟨_, _, _, _, _, hk, -⟩ := (Strand.joins_of_ofWire hs).shims n hm
    exact hk

/-- A valid board is realized by a graph of its shape, or fails over a wire that lands and has aspects that do not fit. -/
theorem realize_shapes (hn : naming.Faithful) (hv : b.validate = .ok ()) :
    (∃ w ∈ b.wires, b.Lands w ∧ ¬ w.Fits r ∧ ∃ fault, b.realize r naming = .error (.wire w.id fault)) ∨
      ∃ g, b.realize r naming = .ok g ∧ b.Shapes r g := by
  cases hg : b.realize r naming with
  | error e =>
    obtain ⟨w, hw, hlands, fault, hfault, rfl⟩ := fault_of_realize hv hg
    refine .inl ⟨w, hw, hlands, fun hfits => ?_, fault, rfl⟩
    obtain ⟨aspects, haspects⟩ := AspectRegistry.exists_aspectsOn.2 hfits
    rw [hfault] at haspects
    cases haspects
  | ok g =>
    refine .inr ⟨g, rfl, ?_, fun id => ?_, fun w hw hdeferred => ?_⟩
    · obtain ⟨nodes, hnodes⟩ := exists_gadgetNodes hv naming
      refine ((perm_gadgets hn hv hg hnodes).map _).trans (.of_eq ?_)
      exact map_gadgetNodes (fun _ _ _ => rfl) hnodes
    · rw [contains_deferred_iff hg]
      refine exists_congr fun w => and_congr_right fun hw => and_congr_right fun _ => ?_
      exact (open_iff_of_mem hv hw).symm
    · have hlands : b.Lands w := by
        rw [Bool.eq_false_iff, ne_eq, deferred_iff hv hg hw, not_not] at hdeferred
        exact hdeferred
      obtain ⟨⟨p, hp, -⟩, q, hq, -⟩ := ends_of_validate hv w hw
      obtain ⟨s, h⟩ := exists_strung hg hw hlands
      obtain ⟨o, o', lattice, hsource, htarget, hs⟩ := h.ofWire
      obtain ⟨slot, ho⟩ := seated_of_landing? hsource
      obtain ⟨slot', ho'⟩ := seated_of_landing? htarget
      obtain ⟨ids, hspans⟩ := h.spans hn hv hg ho ho' hs
      obtain ⟨sl, p', hnode, -⟩ := gadgetNode?_of_seated hn hv hg ho
      obtain ⟨sl', q', hnode', -⟩ := gadgetNode?_of_seated hn hv hg ho'
      exact ⟨o, o', _, _, ids, s.shims, s.edges, means_of_landing? hp hsource, hnode, means_of_landing? hq htarget,
        hnode', hspans⟩

/-- A wire from a gadget to a slot, with aspects of both planes out of canonical order, and a wire to an empty slot. -/
def spannedBoard : Board where
  id := "b"
  slots := .ofList [("s", { requires := "P" }), ("t", { requires := "P" }), ("u", { requires := "P" })]
  pinouts := .ofList [("P", { inputs := ["in"], outputs := ["out"] })]
  occupants := .ofList [("s", [{ id := "g", template := "passthrough" }]), ("t", [{ id := "h", template := "echo" }])]
  wires := [
    { id := "v", source := .ofGadget "g" "out", target := .ofSlot "t" "in",
      aspects := [{ aspect := "rate-limit", params := .mkObj [("rps", .num (.int 5))] }, { aspect := "audit" },
        { aspect := "tap" }] },
    { id := "w", source := .ofSlot "t" "out", target := .ofSlot "u" "in" }]

theorem validate_spannedBoard : spannedBoard.validate = .ok () := by decide +kernel

/-- The aspects of the first wire fit on it, and the second has none. -/
theorem exists_realize_spannedBoard (naming : Naming) : ∃ g, spannedBoard.realize .builtin naming = .ok g := by
  have hfits : ∀ w ∈ spannedBoard.wires, w.Fits .builtin := by decide +kernel
  exact (exists_realize validate_spannedBoard).2 fun w hw _ => hfits w hw

theorem realize_shapes_spanned :
    ∃ g, spannedBoard.realize .builtin .spelled = .ok g ∧ spannedBoard.Shapes .builtin g := by
  obtain ⟨g, hg⟩ := exists_realize_spannedBoard .spelled
  rcases realize_shapes (r := .builtin) Naming.faithful_spelled validate_spannedBoard with
    ⟨w, -, -, -, fault, he⟩ | hshapes
  · rw [hg] at he
    cases he
  · exact hshapes

end Board

end Patchbay
