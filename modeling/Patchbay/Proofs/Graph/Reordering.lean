import Patchbay.Proofs.Graph.Shape
import Patchbay.Proofs.Graph.Shuffling

/-! Boards that say the same in another order. It makes no difference to the graph of a board in which order its wires
are declared, nor in which order aspects stand on a wire, so long as the instances of one aspect stand as they stood. -/

namespace Patchbay

/-- A wire with its aspects in another order, in which the instances of each aspect stand as they stood. -/
def Wire.Reorders (w w' : Wire) : Prop :=
  ∃ aspects : List AspectInstance, aspects.Perm w.aspects ∧ w' = { w with aspects } ∧
    ∀ aspect, w'.declared aspect = w.declared aspect

/-- A board with its wires in another order, each with its aspects in another order. -/
def Board.Reorders (b b' : Board) : Prop :=
  ∃ ws ws' : List Wire, ws.Perm b.wires ∧ List.Forall₂ Wire.Reorders ws ws' ∧ b' = { b with wires := ws' }

/-- What a node comes from, without the position of an instance on its wire. -/
def NodeOrigin.unindexed : NodeOrigin → NodeOrigin
  | .occupant slot => .occupant slot
  | .aspect id wire _ params => .aspect id wire 0 params

def Node.unindexed (n : Node) : Node := { n with origins := n.origins.map NodeOrigin.unindexed }

/-- A graph without the positions of instances on their wires. -/
def Graph.unindexed (g : Graph) : Graph := { g with nodes := g.nodes.map fun _ n => n.unindexed }

/-! ## Wires -/

namespace Wire.Reorders

variable {w w' : Wire}

theorem refl (w : Wire) : w.Reorders w := ⟨w.aspects, .refl _, rfl, fun _ => rfl⟩

theorem symm (h : w.Reorders w') : w'.Reorders w := by
  obtain ⟨aspects, hperm, rfl, hdeclared⟩ := h
  exact ⟨w.aspects, hperm.symm, rfl, fun aspect => (hdeclared aspect).symm⟩

theorem shuffles (h : w.Reorders w') : w.Shuffles w' := by
  obtain ⟨aspects, hperm, rfl, -⟩ := h
  exact ⟨aspects, hperm, rfl⟩

theorem map_instancesOf (h : w.Reorders w') (aspect : AspectId) :
    (w'.instancesOf aspect).map (·.1) = (w.instancesOf aspect).map (·.1) := by
  obtain ⟨aspects, -, rfl, hdeclared⟩ := h
  rw [Wire.map_instancesOf, Wire.map_instancesOf, hdeclared]

end Wire.Reorders

/-- Two instances of different aspects may change places. -/
theorem Wire.reorders_swap {w : Wire} {a a' : AspectInstance} {rest : List AspectInstance}
    (hw : w.aspects = a :: a' :: rest) (hne : a.aspect ≠ a'.aspect) :
    w.Reorders { w with aspects := a' :: a :: rest } := by
  refine ⟨a' :: a :: rest, hw ▸ .swap a a' rest, rfl, fun aspect => ?_⟩
  rw [declared, declared, hw]
  by_cases ha : a.aspect = aspect
  · subst ha
    simp [Ne.symm hne]
  · simp [List.filter_cons, ha]

/-! ## Aspects -/

namespace Manifest

variable {m : Manifest}

/-- Which instances of a group contribute, and with what, is told from the instances alone. -/
theorem combine?_congr {group group' : List (AspectInstance × Nat)} (h : group'.map (·.1) = group.map (·.1)) :
    (m.combine? group').map (fun x => (x.1, x.2.map (·.1))) = (m.combine? group).map fun x => (x.1, x.2.map (·.1)) := by
  have hfold (group : List (AspectInstance × Nat)) (c : Composition) :
      (c.contributors.filterMap fun i => group[i]?).map (·.1) =
        c.contributors.filterMap fun i => (group.map (·.1))[i]? := by
    simp only [List.map_filterMap, List.getElem?_map]
  match group, group', h with
  | [], [], _ => rfl
  | [x], [x'], h =>
    have hx : x'.1 = x.1 := (List.cons.inj h).1
    simp [combine?, hx]
  | [_], _ :: _ :: _, h | _ :: _ :: _, [_], h => simp at h
  | x :: y :: rest, x' :: y' :: rest', h =>
    simp only [combine?, Option.map_map, Function.comp_def, hfold, h]

theorem shimOn?_reordered {naming : Naming} {w w' : Wire} (h : w.Reorders w') (lattice : Option LatticeName)
    (aspect : AspectId) : (m.shimOn? naming w' lattice aspect).map Node.unindexed =
      (m.shimOn? naming w lattice aspect).map Node.unindexed := by
  have hcombine := m.combine?_congr (h.map_instancesOf aspect)
  unfold shimOn?
  split
  · rfl
  next joinPoint template _ =>
  -- without positions a shim is made of the parameters and the instances alone
  let shim (x : Json × List AspectInstance) : Node := {
    id := naming.shimNode w.id aspect x.1
    kind := .shim
    template
    wire := some w.id
    pins := shimPins lattice
    tags := .ofNames [tag aspect, "join:" ++ joinPoint.name]
    params := x.1
    origins := x.2.map fun a => .aspect aspect w.id 0 a.params }
  simpa [Function.comp_def, Node.unindexed, NodeOrigin.unindexed, shim, h.shuffles.id_eq] using
    congrArg (Option.map shim) hcombine

end Manifest

/-! ## Strands -/

/-- Two strands have the same edges, and the same shims but for positions. -/
structure Strand.Resembles (s s' : Strand) : Prop where
  shims : s'.shims.map Node.unindexed = s.shims.map Node.unindexed
  edges : s'.edges = s.edges

/-- A wire comes to the same strand whichever way its aspects are ordered. -/
theorem Wire.Reorders.ofWire {r : AspectRegistry} {naming : Naming} {w w' : Wire} (h : w.Reorders w')
    {lattice : Option LatticeName} {source target : NodeId} {s : Strand}
    (hs : Strand.ofWire r naming w lattice source target = .ok s) :
    ∃ s', Strand.ofWire r naming w' lattice source target = .ok s' ∧ s.Resembles s' := by
  obtain ⟨aspects, haspects, hs⟩ := ok_of_bind hs
  cases hs
  refine ⟨_, bind_eq_ok.2 ⟨aspects, h.shuffles.aspectsOn haspects, rfl⟩, ?_⟩
  have hshims : (aspects.filterMap fun x => x.2.shimOn? naming w' lattice x.1).map Node.unindexed =
      (aspects.filterMap fun x => x.2.shimOn? naming w lattice x.1).map Node.unindexed := by
    simp only [List.map_filterMap, Manifest.shimOn?_reordered h]
  have hids := congrArg (List.map Node.id) hshims
  rw [List.map_map, List.map_map] at hids
  have hids : (aspects.filterMap fun x => x.2.shimOn? naming w' lattice x.1).map (·.id) =
    (aspects.filterMap fun x => x.2.shimOn? naming w lattice x.1).map (·.id) := hids
  exact ⟨hshims, by rw [hids, h.shuffles.id_eq, h.shuffles.source_eq, h.shuffles.target_eq]⟩

/-! ## Boards -/

namespace Board

variable {b b' : Board} {r : AspectRegistry} {naming : Naming} {g g' : Graph} {w w' : Wire} {s : Strand}

theorem strandOf?_reordered {gadgets : Graph} (h : w.Reorders w')
    (hs : b.strandOf? r naming gadgets w = .ok (some s)) :
    ∃ s', b.strandOf? r naming gadgets w' = .ok (some s') ∧ s.Resembles s' := by
  unfold strandOf? at hs ⊢
  rw [h.shuffles.source_eq, h.shuffles.target_eq]
  split at hs
  · obtain ⟨s₁, hs₁, hs⟩ := ok_of_bind hs
    cases hs
    obtain ⟨s', hs', hresembles⟩ := h.ofWire (ok_of_mapError hs₁)
    exact ⟨s', bind_eq_ok.2 ⟨s', mapError_eq_ok.2 hs', rfl⟩, hresembles⟩
  · cases hs

namespace Reorders

theorem symm (h : b.Reorders b') : b'.Reorders b := by
  obtain ⟨ws, ws', hperm, hws, rfl⟩ := h
  obtain ⟨mid, hmid, hperm'⟩ := List.perm_comp_forall₂ hperm.symm hws
  exact ⟨mid, b.wires, hperm', (hmid.imp fun _ _ h => h.symm).flip, rfl⟩

theorem shuffles (h : b.Reorders b') : b.Shuffles b' := by
  obtain ⟨ws, ws', hperm, hws, rfl⟩ := h
  exact ⟨ws, ws', hperm, hws.imp fun _ _ h => h.shuffles, rfl⟩

/-- Each wire stands on the other board, somewhere and somehow ordered. -/
theorem exists_wire (h : b.Reorders b') (hw : w ∈ b.wires) : ∃ w' ∈ b'.wires, w.Reorders w' := by
  obtain ⟨ws, ws', hperm, hws, rfl⟩ := h
  exact exists_mem_of_perm_forall₂ hperm hws hw

theorem strung (h : b.Reorders b') (hs : b.Strung r naming w s) :
    ∃ w' s', b'.Strung r naming w' s' ∧ s.Resembles s' := by
  obtain ⟨hw, nodes, hnodes, hs⟩ := hs
  obtain ⟨w', hw', hr⟩ := h.exists_wire hw
  obtain ⟨s', hs', hresembles⟩ := strandOf?_reordered hr hs
  obtain ⟨ws, ws', -, -, rfl⟩ := h
  exact ⟨w', s', ⟨hw', nodes, hnodes, hs'⟩, hresembles⟩

/-! ## Graphs -/

theorem get?_edges (h : b.Reorders b') (hn : naming.Faithful) (hv : b.validate = .ok ())
    (hg : b.realize r naming = .ok g) (hg' : b'.realize r naming = .ok g') {k : EdgeId} {e : Edge}
    (he : g.edges.get? k = some e) : g'.edges.get? k = some e := by
  obtain ⟨hid, w, s, hs, hmem⟩ := (get?_edges_iff hn hv hg).1 he
  obtain ⟨w', s', hs', hresembles⟩ := h.strung hs
  exact (get?_edges_iff hn (h.shuffles.validate hv) hg').2 ⟨hid, w', s', hs', hresembles.edges ▸ hmem⟩

theorem get?_nodes (h : b.Reorders b') (hn : naming.Faithful) (hv : b.validate = .ok ())
    (hg : b.realize r naming = .ok g) (hg' : b'.realize r naming = .ok g') {id : NodeId} {n : Node}
    (hget : g.unindexed.nodes.get? id = some n) : g'.unindexed.nodes.get? id = some n := by
  rw [Graph.unindexed, Dict.get?_map] at hget ⊢
  obtain ⟨n, hn', rfl⟩ := Option.map_eq_some_iff.1 hget
  obtain ⟨hid, hseat | ⟨w, s, hs, hmem⟩⟩ := (get?_nodes_iff hn hv hg).1 hn'
  · have hget' := (get?_nodes_iff hn (h.shuffles.validate hv) hg').2 ⟨hid, .inl (h.shuffles.isSeat_iff.2 hseat)⟩
    rw [hget', Option.map_some]
  · obtain ⟨w', s', hs', hresembles⟩ := h.strung hs
    have hmem' : n.unindexed ∈ s'.shims.map Node.unindexed := hresembles.shims ▸ List.mem_map_of_mem hmem
    obtain ⟨n', hmem', hsame⟩ := List.mem_map.1 hmem'
    have hid' : n'.id = id := (congrArg Node.id hsame).trans hid
    have hget' := (get?_nodes_iff hn (h.shuffles.validate hv) hg').2 ⟨hid', .inr ⟨w', s', hs', hmem'⟩⟩
    rw [hget', Option.map_some, hsame]

end Reorders

/-- Boards that differ in the order of their wires, and in that of different aspects on them, either both fail to be
realized or come to one graph, but for the positions that instances of aspects have on their wires. -/
theorem realize_reordered (hn : naming.Faithful) (hv : b.validate = .ok ()) (h : b.Reorders b') :
    (∃ e e', b.realize r naming = .error e ∧ b'.realize r naming = .error e') ∨
      ∃ g g', b.realize r naming = .ok g ∧ b'.realize r naming = .ok g' ∧ g.unindexed = g'.unindexed := by
  have hv' := h.shuffles.validate hv
  rcases h.shuffles.realize_cases r naming with hfail | ⟨g, g', hg, hg'⟩
  · exact .inl hfail
  refine .inr ⟨g, g', hg, hg', ?_⟩
  have hnodes : g.unindexed.nodes = g'.unindexed.nodes := Dict.ext_get? fun id => Option.ext fun n =>
    ⟨h.get?_nodes hn hv hg hg', h.symm.get?_nodes hn hv' hg' hg⟩
  have hedges : g.edges = g'.edges := Dict.ext_get? fun k => Option.ext fun e =>
    ⟨h.get?_edges hn hv hg hg', h.symm.get?_edges hn hv' hg' hg⟩
  have hdeferred : g.deferred = g'.deferred := Dict.ext_get? fun id => Option.ext fun u =>
    ⟨h.shuffles.get?_deferred hg hg', h.symm.shuffles.get?_deferred hg' hg⟩
  exact (Graph.mk.injEq ..).mpr ⟨hnodes, hedges, hdeferred⟩

/-- The board with its wires the other way round, and with the first two aspects of a wire the other way round. -/
def turnedBoard : Board :=
  { spannedBoard with wires := spannedBoard.wires.reverse.map fun w =>
      match w.aspects with
      | a :: a' :: rest => { w with aspects := a' :: a :: rest }
      | _ => w }

theorem realize_reordered_spanned : ∃ g g', spannedBoard.realize .builtin .spelled = .ok g ∧
    turnedBoard.realize .builtin .spelled = .ok g' ∧ g.unindexed = g'.unindexed := by
  have hreorders : spannedBoard.Reorders turnedBoard :=
    ⟨_, _, List.reverse_perm _, .cons (.refl _) (.cons (Wire.reorders_swap rfl (by decide)) .nil), rfl⟩
  obtain ⟨g, hg⟩ := exists_realize_spannedBoard .spelled
  rcases realize_reordered Naming.faithful_spelled validate_spannedBoard hreorders with ⟨e, _, he, -⟩ | hsame
  · rw [hg] at he
    cases he
  · exact hsame

end Board

end Patchbay
