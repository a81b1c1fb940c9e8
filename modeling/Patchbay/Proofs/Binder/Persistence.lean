import Patchbay.Proofs.Binder.Audit
import Patchbay.Proofs.Board.Ends
import Patchbay.Proofs.Graph.Contents

/-! What stays of a graph under one identity stays as it is. An identity says less of a node than the node does: it leaves
out pins, slots and tags. No plan can change these and leave the identity, so that whoever follows the steps of the
receipts has the graph that the binder has. -/

namespace Patchbay

/-- What two graphs both have is the same in both, but for the instances that a shim comes from and the tags of an edge,
and what the steps do not name is in both or in neither. -/
structure Graph.Persists (g g' : Graph) (steps : List GraphDiff) : Prop where
  nodes : ∀ id n n', g.nodes.get? id = some n → g'.nodes.get? id = some n' → n' = { n with origins := n'.origins }
  edges : ∀ k e e', g.edges.get? k = some e → g'.edges.get? k = some e' → e' = { e with tags := e'.tags }
  unnamed_nodes : ∀ id, .addNode id ∉ steps → .removeNode id ∉ steps → g'.nodes.contains id = g.nodes.contains id
  unnamed_edges : ∀ k, .addEdge k ∉ steps → .removeEdge k ∉ steps → g'.edges.contains k = g.edges.contains k

/-! ## Steps -/

namespace Graph

theorem contains_eq_of_notMem_missingFrom {α : Type} {d d' : Dict α} {k : String} (hcome : k ∉ missingFrom d' d)
    (hgo : k ∉ missingFrom d d') : d'.contains k = d.contains k := by
  rw [mem_missingFrom] at hcome hgo
  cases hd : d.contains k <;> cases hd' : d'.contains k <;> simp_all

theorem contains_nodes_of_unnamed {g g' : Graph} {id : NodeId} (hcome : .addNode id ∉ g.diff g')
    (hgo : .removeNode id ∉ g.diff g') : g'.nodes.contains id = g.nodes.contains id := by
  simp only [diff, List.mem_append, List.mem_map, reduceCtorEq, and_false, exists_false, false_or, or_false,
    GraphDiff.addNode.injEq, GraphDiff.removeNode.injEq, exists_eq_right] at hcome hgo
  exact contains_eq_of_notMem_missingFrom hcome hgo

theorem contains_edges_of_unnamed {g g' : Graph} {k : EdgeId} (hcome : .addEdge k ∉ g.diff g')
    (hgo : .removeEdge k ∉ g.diff g') : g'.edges.contains k = g.edges.contains k := by
  simp only [diff, List.mem_append, List.mem_map, reduceCtorEq, and_false, exists_false, false_or, or_false,
    GraphDiff.addEdge.injEq, GraphDiff.removeEdge.injEq, exists_eq_right] at hcome hgo
  exact contains_eq_of_notMem_missingFrom hcome hgo

end Graph

theorem Graph.Persists.agrees {g g' : Graph} {steps : List GraphDiff} (h : g.Persists g' steps) : g.Agrees g' where
  nodes id n n' hn hn' := by
    rw [h.nodes id n n' hn hn']
    exact ⟨rfl, rfl, rfl, fun _ => rfl⟩
  edges k e e' he he' := ⟨e'.tags, h.edges k e e' he he'⟩

/-! ## Shims -/

namespace Manifest

variable {m : Manifest} {naming : Naming} {w w' : Wire} {lattice : Option LatticeName} {aspect : AspectId} {n n' : Node}

/-- Two shims of an aspect on a wire differ in their parameters and in what they come from, if at all. -/
theorem eq_of_shimOn? (hid : w'.id = w.id) (h : m.shimOn? naming w lattice aspect = some n)
    (h' : m.shimOn? naming w' lattice aspect = some n') (hparams : n'.params = n.params) :
    n' = { n with origins := n'.origins } := by
  unfold shimOn? at h h'
  split at h
  · cases h
  next joinPoint template hkind =>
  rw [hkind] at h'
  obtain ⟨⟨params, contributors⟩, -, rfl⟩ := Option.map_eq_some_iff.1 h
  obtain ⟨⟨params', contributors'⟩, -, rfl⟩ := Option.map_eq_some_iff.1 h'
  obtain rfl : params' = params := hparams
  simp only [hid]

end Manifest

theorem Strand.exists_shimOn?_of_mem {r : AspectRegistry} {naming : Naming} {w : Wire} {lattice : Option LatticeName}
    {source target : NodeId} {s : Strand} {n : Node} (h : ofWire r naming w lattice source target = .ok s)
    (hn : n ∈ s.shims) : ∃ aspect m, r.get? aspect = some m ∧ m.shimOn? naming w lattice aspect = some n := by
  obtain ⟨aspects, haspects, h⟩ := ok_of_bind h
  cases h
  obtain ⟨x, hx, hshim⟩ := List.mem_filterMap.1 hn
  exact ⟨x.1, x.2, AspectRegistry.get?_of_aspectsOn haspects x hx, hshim⟩

/-! ## Boards -/

namespace Board

variable {b b' : Board} {r : AspectRegistry} {naming : Naming} {g g' : Graph} {w w' : Wire} {s s' : Strand}

/-- A strand has the lattice of the pin that its wire names, be the gadget in that slot whichever it is. -/
theorem Strung.ofPinout (hn : naming.Faithful) (hv : b.validate = .ok ()) (h : b.Strung r naming w s) :
    ∃ p source target, b.pinoutAt w.id w.source = .ok p ∧
      Strand.ofWire r naming w (p.lattices.get? w.source.pin) source target = .ok s := by
  obtain ⟨hw, nodes, hnodes, hs⟩ := h
  obtain ⟨⟨p, hp, hout⟩, -⟩ := ends_of_validate hv w hw
  unfold strandOf? at hs
  split at hs
  · next o o' ho _ =>
    obtain ⟨s', hs, he⟩ := ok_of_bind hs
    cases he
    obtain ⟨slot, sl, hslot, hpinout, hseat⟩ := seat_of_landing? hp ho
    have hnode := (get?_gadgets hn hv hnodes ⟨slot, sl, p, o, hslot, hpinout, hseat, rfl⟩).2
    have hpin : (o.node naming slot sl p).pins.get? w.source.pin = some _ := Pinout.get?_pins_of_hasOutput hout
    have hlattice : (nodes.foldl Graph.addNode .empty).latticeOf? (naming.gadgetNode o) w.source.pin =
        p.lattices.get? w.source.pin := by
      rw [Graph.latticeOf?, show naming.gadgetNode o = (o.node naming slot sl p).id from rfl, hnode, Option.bind_some,
        hpin, Option.bind_some]
    exact ⟨p, _, _, hp, hlattice ▸ ok_of_mapError hs⟩
  · cases hs

/-- A shim that stands on both boards stands for one aspect on one wire, which is fed from one pin. -/
theorem Beside.shims_alike (h : b.Beside b') (hn : naming.Faithful) (hv : b.validate = .ok ())
    (hv' : b'.validate = .ok ()) (hends : ∀ w ∈ b.wires, ∀ w' ∈ b'.wires, w'.id = w.id → w'.SameEnds w)
    (hs : b.Strung r naming w s) (hs' : b'.Strung r naming w' s') {n n' : Node} (hm : n ∈ s.shims)
    (hm' : n' ∈ s'.shims) (hid : n'.id = n.id) : w'.id = w.id ∧ n'.params = n.params ∧
      ∃ (m : Manifest) (aspect : AspectId) (lattice : Option LatticeName),
        m.shimOn? naming w lattice aspect = some n ∧ m.shimOn? naming w' lattice aspect = some n' := by
  obtain ⟨p, source, target, hp, hstrand⟩ := hs.ofPinout hn hv
  obtain ⟨p', source', target', hp', hstrand'⟩ := hs'.ofPinout hn hv'
  obtain ⟨aspect, m, hget, hshim⟩ := Strand.exists_shimOn?_of_mem hstrand hm
  obtain ⟨aspect', m', hget', hshim'⟩ := Strand.exists_shimOn?_of_mem hstrand' hm'
  have hparts := hn.parts_eq ((Manifest.shimOf_of_shimOn? hshim').2.symm.trans
    (hid.trans (Manifest.shimOf_of_shimOn? hshim).2))
  simp only [List.cons.injEq, and_true, true_and] at hparts
  obtain ⟨hwire, rfl, hparams⟩ := hparts
  obtain rfl : m' = m := Option.some.inj (hget'.symm.trans hget)
  have hsame : w'.SameEnds w := hends w hs.1 w' hs'.1 hwire
  rw [hsame.id_eq, hsame.source_eq] at hp'
  rw [hsame.source_eq, ← h.pinoutAt_eq hv hv' hp hp'] at hshim'
  exact ⟨hwire, Json.text_injective hparams, m', _, _, hshim, hshim'⟩

theorem Beside.persists (h : b.Beside b') (hn : naming.Faithful) (hv : b.validate = .ok ()) (hv' : b'.validate = .ok ())
    (hends : ∀ w ∈ b.wires, ∀ w' ∈ b'.wires, w'.id = w.id → w'.SameEnds w) (hg : b.realize r naming = .ok g)
    (hg' : b'.realize r naming = .ok g') : g.Persists g' (g.diff g') where
  nodes id n n' hget hget' := by
    obtain ⟨hid, hstem⟩ := stem_of_node hg hget
    obtain ⟨hid', hstem'⟩ := stem_of_node hg' hget'
    have hsame : n'.id = n.id := hid'.trans hid.symm
    rcases hstem with hseat | ⟨w, s, hs, hm⟩ <;> rcases hstem' with hseat' | ⟨w', s', hs', hm'⟩
    · rw [← h.seat_eq hn hv hv' hseat hseat' hsame.symm]
    · obtain ⟨_, _, _, o, -, -, -, rfl⟩ := hseat
      exact absurd hsame (hs'.id_ne_gadgetNode hn hm' o)
    · obtain ⟨_, _, _, o, -, -, -, rfl⟩ := hseat'
      exact absurd hsame.symm (hs.id_ne_gadgetNode hn hm o)
    · obtain ⟨hwire, hparams, m, aspect, lattice, hshim, hshim'⟩ := h.shims_alike hn hv hv' hends hs hs' hm hm' hsame
      exact Manifest.eq_of_shimOn? hwire hshim hshim' hparams
  edges k e e' hget hget' := by
    have hagrees := h.agrees hn hv hv' (grounds_of_realize hg) (grounds_of_realize hg')
    obtain ⟨tags, rfl⟩ := hagrees.edges k e e' hget hget'
    rfl
  unnamed_nodes _ := Graph.contains_nodes_of_unnamed
  unnamed_edges _ := Graph.contains_edges_of_unnamed

end Board

/-! ## Plans -/

/-- Across an edit, slots and pinouts are as they were, and wires that stay have the ends that they had. -/
theorem BoundBoard.Settled.beside_of_apply {r : AspectRegistry} {naming : Naming} {x y : BoundBoard} {edit : BoardEdit}
    {board : Board} (hx : x.Settled r naming) (hy : y.Settled r naming) (hedit : edit.apply x.board = .ok board)
    (hboard : y.board = board.normalize naming) :
    x.board.Beside y.board ∧ ∀ w ∈ x.board.wires, ∀ w' ∈ y.board.wires, w'.id = w.id → w'.SameEnds w := by
  refine ⟨hboard ▸ (Board.beside_of_apply hedit).normalize naming, fun w hw w' hw' => ?_⟩
  rw [hboard] at hw'
  exact Board.sameEnds_of_apply hx.normal hx.valid hedit (hboard ▸ hy.valid) hw hw'

namespace Binder

variable {b : Binder} {r : AspectRegistry} {naming : Naming}

/-- A plan that is granted leads from a settled board to the normal form of the board that its edit leads to. -/
theorem Kept.granted (h : b.Kept r naming) {check : GraphCheck} {plan : Plan}
    (hok : (b.applyPlan check plan).2.isOk = true) :
    ∃ x y board, b.bound = some x ∧ (b.applyPlan check plan).1.bound = some y ∧ x.Settled r naming ∧
      y.Settled r naming ∧ plan.edit.apply x.board = .ok board ∧ y.board = board.normalize naming ∧
      (b.applyPlan check plan).2.diffs = x.graph.diff y.graph := by
  rcases b.applyPlan_cases check plan with ⟨y, diffs, hp, -, hdiffs, hb⟩ | ⟨hno, -, -⟩
  · obtain ⟨hcandidate, rfl, -⟩ := candidate_of_propose hp
    obtain ⟨x, board, hx, hedit, hboard⟩ := apply_of_candidate hcandidate
    have hsettled := settled_of_candidate hcandidate
    rw [h.registry_eq, h.naming_eq] at hsettled
    exact ⟨x, y, board, hx, by rw [hb], h.settled x hx, hsettled, hedit, h.naming_eq ▸ hboard,
      graph_of_bound hx ▸ hdiffs⟩
  · rw [hok] at hno
    cases hno

/-- What a plan that is granted leaves of the graph is what it was. -/
theorem Kept.persists (h : b.Kept r naming) (hn : naming.Faithful) {check : GraphCheck} {plan : Plan}
    (hok : (b.applyPlan check plan).2.isOk = true) :
    b.graph.Persists (b.applyPlan check plan).1.graph (b.applyPlan check plan).2.diffs := by
  obtain ⟨x, y, board, hx, hy, hsettled, hsettled', hedit, hboard, hdiffs⟩ := h.granted hok
  obtain ⟨hbeside, hends⟩ := hsettled.beside_of_apply hsettled' hedit hboard
  rw [hdiffs, graph_of_bound hx, graph_of_bound hy]
  exact hbeside.persists hn hsettled.valid hsettled'.valid hends hsettled.realized hsettled'.realized

theorem Kept.declare (h : b.Kept r naming) {board : Board} {x : BoundBoard} (hx : b.realize board = .ok x) :
    (b.declare x).Kept r naming := by
  refine ⟨h.registry_eq, h.naming_eq, fun y hy => ?_⟩
  cases hy
  have hsettled := settled_of_realize hx
  rwa [h.registry_eq, h.naming_eq] at hsettled

theorem Kept.carryOut (h : b.Kept r naming) (check : GraphCheck) (plans : List Plan) :
    (b.carryOut check plans).Kept r naming := foldl_keeps (fun _ plan _ hc => hc.applyPlan check plan) h

/-- A binder as a plan may find it: after any calls, or with a new board about which some plans have been heard. -/
inductive Reached (r : AspectRegistry) (naming : Naming) : Binder → Prop
  | after (principal : String) (proposers : List Proposer) (calls : List BinderCall) :
      Reached r naming (run { registry := r, naming, principal, proposers } calls)
  | amid {b : Binder} {board : Board} {x : BoundBoard} (h : Reached r naming b) (hb : b.bound = none)
      (hx : b.realize board = .ok x) (check : GraphCheck) (plans : List Plan) :
      Reached r naming ((b.declare x).carryOut check plans)

theorem Reached.kept (h : Reached r naming b) : b.Kept r naming := by
  induction h with
  | after principal proposers calls => exact (kept_of_vacant r naming principal proposers).run calls
  | amid _ _ hx check plans ih => exact (ih.declare hx).carryOut check plans

end Binder

end Patchbay
