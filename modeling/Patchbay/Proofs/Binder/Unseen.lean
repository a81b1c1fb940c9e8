import Patchbay.Proofs.Binder.Persistence
import Patchbay.Proofs.Graph.Separation
import Patchbay.Proofs.Graph.Wording

/-! What a plan changes while no step says so. Steps name nodes and edges by their identities, so that they say nothing of
the instances that a shim comes from, of the tags of an edge, or of a wire that is deferred. -/

namespace Patchbay

theorem Manifest.shimOn?_of_aspects {m : Manifest} {naming : Naming} {w w' : Wire} (hid : w'.id = w.id)
    (haspects : w'.aspects = w.aspects) (lattice : Option LatticeName) (aspect : AspectId) :
    m.shimOn? naming w' lattice aspect = m.shimOn? naming w lattice aspect := by
  rw [shimOn?, shimOn?, Wire.instancesOf, Wire.instancesOf, hid, haspects]

namespace Board

/-- A wire of that identity is on both boards, and carries something else on the second. -/
def Rewoven (b b' : Board) (id : WireId) : Prop :=
  ∃ w ∈ b.wires, ∃ w' ∈ b'.wires, w.id = id ∧ w'.id = id ∧ w'.aspects ≠ w.aspects

/-- What may be different between the graphs of two boards if they have the same nodes and edges by identity: what the
shims and the edges of a wire tell of its aspects, where these are different, and which wires are deferred, of those that
are not on both boards. -/
structure Unseen (b b' : Board) (g g' : Graph) : Prop where
  nodes : g'.nodes.keys = g.nodes.keys
  edges : g'.edges.keys = g.edges.keys
  node : ∀ id n n', g.nodes.get? id = some n → g'.nodes.get? id = some n' →
    n' = n ∨ n' = { n with origins := n'.origins } ∧ ∃ wire, n.wire = some wire ∧ b.Rewoven b' wire
  edge : ∀ k e e', g.edges.get? k = some e → g'.edges.get? k = some e' →
    e' = e ∨ e' = { e with tags := e'.tags } ∧ b.Rewoven b' e.wire
  placed : ∀ id, (∃ w ∈ b.wires, w.id = id ∧ g.deferred.contains id = false) ↔
    ∃ w' ∈ b'.wires, w'.id = id ∧ g'.deferred.contains id = false

variable {b b' : Board} {r : AspectRegistry} {naming : Naming} {g g' : Graph} {w w' : Wire} {s s' : Strand}

/-- Wires that carry the same leave the same tags on their edges. -/
theorem Strung.tags_eq (h : b.Strung r naming w s) (h' : b'.Strung r naming w' s') (haspects : w'.aspects = w.aspects)
    {e e' : Edge} (hm : e ∈ s.edges) (hm' : e' ∈ s'.edges) : e'.tags = e.tags := by
  obtain ⟨_, _, _, -, -, hs⟩ := h.ofWire
  obtain ⟨_, _, _, -, -, hs'⟩ := h'.ofWire
  refine Names.ext_contains fun tag => Bool.eq_iff_iff.2 ?_
  rw [((Strand.edges_of_ofWire hs).2.1 e hm).2 tag, ((Strand.edges_of_ofWire hs').2.1 e' hm').2 tag, haspects]

theorem Strung.exists_edge (h : b.Strung r naming w s) : ∃ e, e ∈ s.edges := by
  obtain ⟨_, _, _, -, -, hs⟩ := h.ofWire
  obtain ⟨e, rest, hedges, -⟩ := (Strand.edges_of_ofWire hs).1.ne_nil
  exact ⟨e, hedges ▸ List.mem_cons_self⟩

/-- A wire that lands is told by its edges, so that it lands on every board that has these. -/
theorem lands_of_edges (hn : naming.Faithful) (hg : b.realize r naming = .ok g) (hg' : b'.realize r naming = .ok g')
    (hedges : g'.edges.keys = g.edges.keys) (hw : w ∈ b.wires) (hl : b.Lands w) :
    ∃ w' ∈ b'.wires, w'.id = w.id ∧ b'.Lands w' := by
  obtain ⟨s, hs⟩ := exists_strung hg hw hl
  obtain ⟨e, he⟩ := hs.exists_edge
  have hin : g'.edges.contains e.id = true := by
    rw [Dict.keys_eq_iff.1 hedges]
    exact (hs.contains hg).2 e he
  obtain ⟨e', he'⟩ := Dict.contains_iff.1 hin
  obtain ⟨hid, w', s', hs', hm'⟩ := stem_of_edge hg' he'
  obtain ⟨_, _, _, -, -, hstrand⟩ := hs.ofWire
  have hspelled := (grounds_of_realize hg').spelled e.id e' he'
  have hsame := hn.edge_eq ((Strand.joins_of_ofWire hstrand).edges e he).1 hspelled hid.symm
  have hwire : e'.wire = e.wire := by rw [hsame]
  exact ⟨w', hs'.1, (hs'.wire_of_edge hm').symm.trans (hwire.trans (hs.wire_of_edge he)), hs'.lands⟩

theorem placed_iff_lands (hv : b.validate = .ok ()) (hg : b.realize r naming = .ok g) {id : WireId} :
    (∃ w ∈ b.wires, w.id = id ∧ g.deferred.contains id = false) ↔ ∃ w ∈ b.wires, w.id = id ∧ b.Lands w := by
  refine exists_congr fun w => and_congr_right fun hw => and_congr_right ?_
  rintro rfl
  rw [Bool.eq_false_iff, ne_eq, deferred_iff hv hg hw, not_not]

/-- The deferred wires are those of the board that are not placed. -/
theorem deferred_iff_mem (hg : b.realize r naming = .ok g) {id : WireId} : g.deferred.contains id = true ↔
    id ∈ b.wires.map (·.id) ∧ ¬ ∃ w ∈ b.wires, w.id = id ∧ g.deferred.contains id = false := by
  constructor
  · intro hdeferred
    obtain ⟨w, hw, hid, -⟩ := (contains_deferred_iff hg).1 hdeferred
    refine ⟨List.mem_map.2 ⟨w, hw, hid⟩, ?_⟩
    rintro ⟨_, -, -, hplaced⟩
    cases hdeferred.symm.trans hplaced
  · rintro ⟨hmem, hno⟩
    obtain ⟨w, hw, hid⟩ := List.mem_map.1 hmem
    exact Bool.not_eq_false _ ▸ fun hplaced => hno ⟨w, hw, hid, hplaced⟩

theorem Beside.unseen (h : b.Beside b') (hn : naming.Faithful) (hv : b.validate = .ok ()) (hv' : b'.validate = .ok ())
    (hends : ∀ w ∈ b.wires, ∀ w' ∈ b'.wires, w'.id = w.id → w'.SameEnds w) (hg : b.realize r naming = .ok g)
    (hg' : b'.realize r naming = .ok g') (hdiff : g.diff g' = []) : b.Unseen b' g g' := by
  have hpersists := h.persists hn hv hv' hends hg hg'
  rw [hdiff] at hpersists
  have hedges : g'.edges.keys = g.edges.keys :=
    Dict.keys_eq_iff.2 fun k => hpersists.unnamed_edges k List.not_mem_nil List.not_mem_nil
  refine ⟨Dict.keys_eq_iff.2 fun id => hpersists.unnamed_nodes id List.not_mem_nil List.not_mem_nil, hedges,
    fun id n n' hget hget' => ?_, fun k e e' hget hget' => ?_, fun id => ?_⟩
  · have hrest := hpersists.nodes id n n' hget hget'
    obtain ⟨hid, hstem⟩ := stem_of_node hg hget
    obtain ⟨hid', hstem'⟩ := stem_of_node hg' hget'
    have hsame : n'.id = n.id := hid'.trans hid.symm
    rcases hstem with hseat | ⟨w, s, hs, hm⟩ <;> rcases hstem' with hseat' | ⟨w', s', hs', hm'⟩
    · exact .inl (h.seat_eq hn hv hv' hseat hseat' hsame.symm).symm
    · obtain ⟨_, _, _, o, -, -, -, rfl⟩ := hseat
      exact absurd hsame (hs'.id_ne_gadgetNode hn hm' o)
    · obtain ⟨_, _, _, o, -, -, -, rfl⟩ := hseat'
      exact absurd hsame.symm (hs.id_ne_gadgetNode hn hm o)
    · obtain ⟨hwire, -, m, aspect, lattice, hshim, hshim'⟩ := h.shims_alike hn hv hv' hends hs hs' hm hm' hsame
      by_cases haspects : w'.aspects = w.aspects
      · rw [Manifest.shimOn?_of_aspects hwire haspects, hshim] at hshim'
        exact .inl (Option.some.inj hshim').symm
      · exact .inr ⟨hrest, w.id, (Manifest.shimOf_of_shimOn? hshim).1.wire_eq, w, hs.1, w', hs'.1, rfl, hwire, haspects⟩
  · have hrest := hpersists.edges k e e' hget hget'
    obtain ⟨-, w, s, hs, hm⟩ := stem_of_edge hg hget
    obtain ⟨-, w', s', hs', hm'⟩ := stem_of_edge hg' hget'
    by_cases haspects : w'.aspects = w.aspects
    · rw [hs.tags_eq hs' haspects hm hm'] at hrest
      exact .inl hrest
    · have hsame : e'.wire = e.wire := by rw [hrest]
      have hwire' : w'.id = e.wire := (hs'.wire_of_edge hm').symm.trans hsame
      exact .inr ⟨hrest, w, hs.1, w', hs'.1, (hs.wire_of_edge hm).symm, hwire', haspects⟩
  · rw [placed_iff_lands hv hg, placed_iff_lands hv' hg']
    constructor
    · rintro ⟨w, hw, rfl, hl⟩
      exact lands_of_edges hn hg hg' hedges hw hl
    · rintro ⟨w', hw', rfl, hl'⟩
      exact lands_of_edges hn hg' hg hedges.symm hw' hl'

/-- Where the wires carry what they carried, and none has come or gone, nothing is different. -/
theorem Unseen.graph_eq (h : b.Unseen b' g g') (hv : b.validate = .ok ()) (hg : b.realize r naming = .ok g)
    (hg' : b'.realize r naming = .ok g')
    (hwires : b'.wires.map (fun w => (w.id, w.aspects)) = b.wires.map fun w => (w.id, w.aspects)) : g' = g := by
  have hrewoven (id : WireId) : ¬ b.Rewoven b' id := by
    rintro ⟨w, hw, w', hw', rfl, hid, hne⟩
    have hmem : (w'.id, w'.aspects) ∈ b.wires.map fun w => (w.id, w.aspects) := hwires ▸ List.mem_map.2 ⟨w', hw', rfl⟩
    obtain ⟨v, hv', hsame⟩ := List.mem_map.1 hmem
    obtain ⟨hvid, hvaspects⟩ := Prod.mk.inj hsame
    have hnodup := (checkWires_eq_ok.1 (validate_eq_ok.1 hv).2.2).2
    obtain rfl := List.inj_on_of_nodup_map hnodup hv' hw (hvid.trans hid)
    exact hne hvaspects.symm
  have hids : b'.wires.map (·.id) = b.wires.map (·.id) := by
    simpa [Function.comp_def] using congrArg (List.map Prod.fst) hwires
  have hnodes : g'.nodes = g.nodes := Dict.ext_keys h.nodes fun id n' n hn' hn =>
    (h.node id n n' hn hn').resolve_right fun ⟨_, wire, _, hwire⟩ => hrewoven wire hwire
  have hedges : g'.edges = g.edges := Dict.ext_keys h.edges fun k e' e he' he =>
    (h.edge k e e' he he').resolve_right fun ⟨_, hwire⟩ => hrewoven e.wire hwire
  have hdeferred : g'.deferred = g.deferred := by
    refine Names.ext_contains fun id => Bool.eq_iff_iff.2 ?_
    rw [deferred_iff_mem hg, deferred_iff_mem hg', hids, h.placed]
  cases g
  cases g'
  simp only [Graph.mk.injEq]
  exact ⟨hnodes, hedges, hdeferred⟩

end Board

namespace Binder

/-- A plan that is granted without any step leaves a graph of the same nodes and edges, in which nothing is different but
what shims and edges tell of the aspects of a wire, and the wires that are deferred. Where the wires are those from before
with the same aspects, the graph is the same. -/
theorem applyPlan_unseen {b : Binder} {r : AspectRegistry} {naming : Naming} (h : Reached r naming b) {check : GraphCheck}
    {plan : Plan} (hok : (b.applyPlan check plan).2.isOk = true) (hdiffs : (b.applyPlan check plan).2.diffs = []) :
    ∃ x y, b.bound = some x ∧ (b.applyPlan check plan).1.bound = some y ∧
      (naming.TellsApart (x.board.words r naming ++ y.board.words r naming) →
        x.board.Unseen y.board x.graph y.graph ∧
        (y.board.wires.map (fun w => (w.id, w.aspects)) = x.board.wires.map (fun w => (w.id, w.aspects)) →
          y.graph = x.graph)) := by
  obtain ⟨x, y, board, hx, hy, hsettled, hsettled', hedit, hboard, hsteps⟩ := h.kept.granted hok
  obtain ⟨hbeside, hends⟩ := hsettled.beside_of_apply hsettled' hedit hboard
  refine ⟨x, y, hx, hy, fun hn => ?_⟩
  obtain ⟨naming', hn', hagrees⟩ := hn.exists_faithful
  have hg := Board.realize_congr (hagrees.mono (List.subset_append_left _ _))
  have hg' := Board.realize_congr (hagrees.mono (List.subset_append_right _ _))
  rw [hsettled.realized] at hg
  rw [hsettled'.realized] at hg'
  have hunseen := hbeside.unseen hn' hsettled.valid hsettled'.valid hends hg hg' (hsteps.symm.trans hdiffs)
  exact ⟨hunseen, hunseen.graph_eq hsettled.valid hg hg'⟩

/-- A gadget with a wire to itself, or none, and an empty slot. -/
def quietBoard (wires : List Wire) : Board where
  id := "b"
  slots := .ofList [("s", { requires := "P" }), ("t", { requires := "P" })]
  pinouts := .ofList [("P", { inputs := ["in"], outputs := ["out"] })]
  occupants := .ofList [("s", [{ id := "g", template := "echo" }])]
  wires

/-- A wire from the gadget to itself. -/
def loopWire (aspects : List AspectInstance) : Wire :=
  { id := "w", source := .ofGadget "g" "out", target := .ofGadget "g" "in", aspects }

/-- To mark the edges of a wire takes no step. -/
theorem applyPlan_unseen_mark :
    let naming := Naming.ofText Naming.spelling Naming.undotted_spelling
    let b := run { registry := .builtin, naming } [.adopt noCheck (quietBoard [loopWire []])]
    let mark := b.applyPlan noCheck { edit := .updateWire "w" { aspects := some [{ aspect := "audit" }] } }
    mark.2.isOk = true ∧ mark.2.diffs = [] ∧
      ∃ x y, b.bound = some x ∧ mark.1.bound = some y ∧ x.board.Unseen y.board x.graph y.graph := by
  intro naming b mark
  have hquiet : (mark.2.isOk = true ∧ mark.2.diffs = []) ∧ (b.bound.bind fun x => mark.1.bound.map fun y =>
      decide (naming.TellsApart (x.board.words .builtin naming ++ y.board.words .builtin naming))) = some true := by
    decide +kernel
  obtain ⟨⟨hok, hdiffs⟩, hwords⟩ := hquiet
  obtain ⟨x, y, hx, hy, hunseen⟩ := applyPlan_unseen (.after "binder" [] [.adopt noCheck (quietBoard [loopWire []])])
    hok hdiffs
  rw [show b.bound = some x from hx, show mark.1.bound = some y from hy, Option.bind_some, Option.map_some] at hwords
  exact ⟨hok, hdiffs, x, y, hx, hy, (hunseen (of_decide_eq_true (Option.some.inj hwords))).1⟩

/-- Three plans without a step: the first changes the tags of an edge, the second what a shim comes from, and the third
which wires are deferred. -/
theorem changes_without_steps :
    let b (wires : List Wire) := run { registry := .builtin, naming := .spelled } [.adopt noCheck (quietBoard wires)]
    let update (aspects : List AspectInstance) : Plan := { edit := .updateWire "w" { aspects := some aspects } }
    let mark := (b [loopWire []]).applyPlan noCheck (update [{ aspect := "audit" }])
    let double := (b [loopWire [{ aspect := "tap" }]]).applyPlan noCheck (update [{ aspect := "tap" }, { aspect := "tap" }])
    let defer := (b []).applyPlan noCheck
      { edit := .addWire { id := "v", source := .ofGadget "g" "out", target := .ofSlot "t" "in" } }
    (mark.2.isOk = true ∧ mark.2.diffs = [] ∧ mark.1.graph.edges ≠ (b [loopWire []]).graph.edges) ∧
      (double.2.isOk = true ∧ double.2.diffs = [] ∧
        double.1.graph.nodes ≠ (b [loopWire [{ aspect := "tap" }]]).graph.nodes) ∧
      defer.2.isOk = true ∧ defer.2.diffs = [] ∧ defer.1.graph.deferred ≠ (b []).graph.deferred := by
  intro b update mark double defer
  have hmark : mark.2.isOk = true ∧ mark.2.diffs = [] ∧
      mark.1.graph.edges.values.map (·.tags.keys) ≠ (b [loopWire []]).graph.edges.values.map (·.tags.keys) := by
    decide +kernel
  have hdouble : double.2.isOk = true ∧ double.2.diffs = [] ∧ double.1.graph.nodes.values.map (·.origins.length) ≠
      (b [loopWire [{ aspect := "tap" }]]).graph.nodes.values.map (·.origins.length) := by
    decide +kernel
  have hdefer : defer.2.isOk = true ∧ defer.2.diffs = [] ∧
      defer.1.graph.deferred.keys ≠ (b []).graph.deferred.keys := by
    decide +kernel
  exact ⟨⟨hmark.1, hmark.2.1, fun h => hmark.2.2 (by rw [h])⟩, ⟨hdouble.1, hdouble.2.1, fun h => hdouble.2.2 (by rw [h])⟩,
    hdefer.1, hdefer.2.1, fun h => hdefer.2.2 (by rw [h])⟩

end Binder

end Patchbay
