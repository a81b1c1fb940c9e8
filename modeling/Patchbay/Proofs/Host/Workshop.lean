import Patchbay.Proofs.Graph.Anchor
import Patchbay.Proofs.Host.LiveBoard

/-! What a workshop can make. Where all nodes of a graph can be made, the graph can be installed unless two of them come
under one registration; and as long as what plans add is checked, all nodes of a graph can be made. -/

namespace Patchbay

namespace Graph

/-- No two nodes come under one registration. -/
def Apart (g : Graph) : Prop :=
  ∀ id id' n n', g.nodes.get? id = some n → g.nodes.get? id' = some n' →
    n.registrationId = n'.registrationId → id = id'

/-- Two nodes come under one and the same registration. -/
def Clashes (g : Graph) (gadget : GadgetId) : Prop :=
  ∃ id id' n n', id ≠ id' ∧ g.nodes.get? id = some n ∧ g.nodes.get? id' = some n' ∧
    n.registrationId = gadget ∧ n'.registrationId = gadget

theorem addedNodes_diff (old new : Graph) :
    GraphDiff.addedNodes new (old.diff new) = (missingFrom new.nodes old.nodes).filterMap new.nodes.get? := by
  simp only [GraphDiff.addedNodes, diff, List.filterMap_append, List.filterMap_map, Function.comp_def,
    List.filterMap_none, List.nil_append, List.append_nil]

theorem Grounded.pairwise_addedNodes {old new : Graph} (h : new.Grounded) :
    (GraphDiff.addedNodes new (old.diff new)).Pairwise fun n n' => n.id ≠ n'.id := by
  rw [addedNodes_diff, List.pairwise_filterMap]
  refine (nodup_missingFrom new.nodes old.nodes).imp fun {id id'} hne n hn n' hn' => ?_
  rwa [h.node_id id n hn, h.node_id id' n' hn']

end Graph

namespace Workshop

variable {w : Workshop} {r : Retirement}

/-- A workshop has the gadget of a node, which reads inputs of the node only, and the lattices of its pins. -/
structure CanMake (w : Workshop) (n : Node) : Prop where
  gadget : ∃ gadget, w.library.create n.template n.params = .ok gadget ∧
    ∀ pin ∈ gadget.inputs, n.hasInput pin = true
  lattices : ∀ pin spec, n.pins.get? pin = some spec →
    ∃ l, w.lattices.get (spec.lattice.getD w.defaultLattice) = .ok l

def CanMakeAll (w : Workshop) (g : Graph) : Prop := ∀ id n, g.nodes.get? id = some n → w.CanMake n

/-! ## What is prepared can be made -/

theorem canMake_of_prepareNode {i : Installation} {p p' : Preparation} {n : Node}
    (h : w.prepareNode i r p n = .ok p') : w.CanMake n := by
  obtain ⟨gadget, hgadget, h⟩ := ok_of_bind h
  split at h
  · cases h
  next hpins =>
  split at h
  · cases h
  obtain ⟨lattices, hl, -⟩ := ok_of_bind h
  refine ⟨⟨gadget, ok_of_mapError hgadget, fun pin hpin => ?_⟩, fun pin spec hspec => ?_⟩
  · simpa using List.find?_eq_none.1 hpins pin hpin
  · obtain ⟨d, d', hd⟩ := ok_of_foldlM hl (pin, spec) (Dict.get?_eq_some_iff.1 hspec)
    unfold preparePin at hd
    simp only at hd
    split at hd
    · cases hd
    · obtain ⟨lattice, hlattice, -⟩ := ok_of_bind hd
      exact ⟨lattice, ok_of_mapError hlattice⟩

theorem canMake_of_prepareNodes {i : Installation} {p : Preparation} {old new : Graph}
    (h : w.prepareNodes new (old.diff new) i = .ok p) {id : NodeId} {n : Node} (hn : new.nodes.get? id = some n)
    (hid : old.nodes.contains id = false) : w.CanMake n := by
  obtain ⟨_, _, hnode⟩ := ok_of_foldlM h n (Graph.mem_addedNodes.2 ⟨id, hn, hid⟩)
  exact canMake_of_prepareNode hnode

theorem canMake_of_checkNodes {old new : Graph} (h : w.checkNodes new (old.diff new) = .ok ()) {id : NodeId}
    {n : Node} (hn : new.nodes.get? id = some n) (hid : old.nodes.contains id = false) : w.CanMake n := by
  unfold checkNodes at h
  split at h
  · next hp => exact canMake_of_prepareNodes hp hn hid
  · cases h

theorem canMakeAll_of_prepare {g : Graph} {p : Preparation} (h : w.prepare g (Graph.empty.diff g) {} = .ok p) :
    w.CanMakeAll g := by
  obtain ⟨_, hnodes, -⟩ := ok_of_bind h
  exact fun id n hn => canMake_of_prepareNodes hnodes hn rfl

/-! ## What can be made is prepared -/

theorem foldlM_preparePin (r : Retirement) (node : NodeId) {pins : List (PinName × PinSpec)} {d : Dict Lattice}
    (hl : ∀ pin ∈ pins, ∃ l, w.lattices.get (pin.2.lattice.getD w.defaultLattice) = .ok l)
    (hnodup : (pins.map (·.1)).Nodup) (hfree : ∀ pin ∈ pins, d.contains (pinContact node pin.1) = false) :
    ∃ d', pins.foldlM (w.preparePin {} r node) d = .ok d' := by
  induction pins generalizing d with
  | nil => exact ⟨d, rfl⟩
  | cons pin rest ih =>
    obtain ⟨l, hlattice⟩ := hl pin List.mem_cons_self
    obtain ⟨hnotin, hrest⟩ := List.nodup_cons.1 hnodup
    have hpin : w.preparePin {} r node d pin = .ok (d.insert (pinContact node pin.1) l) := by
      have hkeeps : Installation.keepsContact {} r (pinContact node pin.1) = false := rfl
      simp only [preparePin, hkeeps, hfree pin List.mem_cons_self, hlattice, Bool.or_self, Bool.false_eq_true,
        if_false]
      rfl
    rw [List.foldlM_cons, hpin]
    refine ih (fun pin' hpin' => hl pin' (List.mem_cons_of_mem pin hpin')) hrest fun pin' hpin' => ?_
    rw [Bool.eq_false_iff, ne_eq, Dict.contains_insert, hfree pin' (List.mem_cons_of_mem pin hpin')]
    rintro (he | hc)
    · exact hnotin (List.mem_map.2 ⟨pin', hpin', pinContact_right_inj he⟩)
    · cases hc

/-- Over nothing, a node that can be made is prepared unless its registration is taken. -/
theorem prepareNode_cases {p : Preparation} {n : Node} (hm : w.CanMake n)
    (hfree : ∀ pin, p.lattices.contains (pinContact n.id pin) = false) :
    (∃ p', w.prepareNode {} r p n = .ok p') ∨
      (p.registrations.contains n.registrationId = true ∧
        w.prepareNode {} r p n = .error (.gadget (.duplicate n.registrationId))) := by
  obtain ⟨⟨gadget, hgadget, hpins⟩, hlattices⟩ := hm
  have hfind : gadget.inputs.find? (fun pin => !n.hasInput pin) = none := by
    rw [List.find?_eq_none]
    intro pin hpin
    rw [hpins pin hpin]
    decide
  have hkeeps : Installation.keepsGadget {} r n.registrationId = false := rfl
  have hentries : ∀ pin ∈ n.pins.entries, ∃ l, w.lattices.get (pin.2.lattice.getD w.defaultLattice) = .ok l :=
    fun pin hpin => hlattices pin.1 pin.2 (Dict.get?_eq_some_iff.2 hpin)
  obtain ⟨d, hd⟩ := foldlM_preparePin r n.id hentries n.pins.nodup_keys fun pin _ => hfree pin.1
  rw [prepareNode, hgadget]
  simp only [Except.mapError, bind, Except.bind, hfind, hkeeps, Bool.false_or, hd]
  cases p.registrations.contains n.registrationId with
  | true => exact .inr ⟨rfl, rfl⟩
  | false => exact .inl ⟨_, rfl⟩

/-- Over nothing, nodes that can be made are prepared unless two of them come under one registration. -/
theorem prepareNodes_cases {ns : List Node} {p : Preparation} (hm : ∀ n ∈ ns, w.CanMake n)
    (hids : ns.Pairwise fun n n' => n.id ≠ n'.id) (hdot : ∀ n ∈ ns, '.' ∉ n.id.toList)
    (hfree : ∀ n ∈ ns, ∀ pin, p.lattices.contains (pinContact n.id pin) = false) :
    (∃ p', ns.foldlM (w.prepareNode {} r) p = .ok p') ∨
      ∃ n ∈ ns, ns.foldlM (w.prepareNode {} r) p = .error (.gadget (.duplicate n.registrationId)) ∧
        (p.registrations.contains n.registrationId = true ∨
          ∃ m ∈ ns, m.id ≠ n.id ∧ m.registrationId = n.registrationId) := by
  induction ns generalizing p with
  | nil => exact .inl ⟨p, rfl⟩
  | cons n rest ih =>
    obtain ⟨hother, hrest⟩ := List.pairwise_cons.1 hids
    rcases prepareNode_cases (r := r) (hm n List.mem_cons_self) (hfree n List.mem_cons_self) with
      ⟨p₁, hn⟩ | ⟨htaken, hn⟩
    · obtain ⟨-, -, hreg, -, hl⟩ := of_prepareNode hn
      -- the contacts of the nodes to come are still free
      have hfree₁ : ∀ m ∈ rest, ∀ pin, p₁.lattices.contains (pinContact m.id pin) = false := by
        intro m hmem pin
        have hmem' := List.mem_cons_of_mem n hmem
        rw [Bool.eq_false_iff, ne_eq, hl, hfree m hmem' pin]
        rintro (⟨pin', -, he⟩ | hc)
        · exact hother m hmem (pinContact_inj (hdot m hmem') (hdot n List.mem_cons_self) he).1.symm
        · cases hc
      rw [List.foldlM_cons, hn]
      rcases ih (fun m hmem => hm m (List.mem_cons_of_mem n hmem)) hrest
        (fun m hmem => hdot m (List.mem_cons_of_mem n hmem)) hfree₁ with hok | ⟨m, hmem, he, hclash⟩
      · exact .inl hok
      · refine .inr ⟨m, List.mem_cons_of_mem n hmem, he, ?_⟩
        rw [hreg, Names.contains_add] at hclash
        rcases hclash with (hsame | htaken) | ⟨m', hm', hne, hsame⟩
        · exact .inr ⟨n, List.mem_cons_self, hother m hmem, hsame.symm⟩
        · exact .inl htaken
        · exact .inr ⟨m', List.mem_cons_of_mem n hm', hne, hsame⟩
    · refine .inr ⟨n, List.mem_cons_self, ?_, .inl htaken⟩
      rw [List.foldlM_cons, hn]
      rfl

/-- Edges are no obstacle where every pin has a contact that stays or will be there. -/
theorem prepare_of_prepareNodes {b : Board} {aspects : AspectRegistry} {naming : Naming} {old new : Graph}
    {i : Installation} {p : Preparation} (ha : b.Anchored aspects naming new)
    (hp : w.prepareNodes new (old.diff new) i = .ok p)
    (hcontacts : ∀ id n pin, new.nodes.get? id = some n → n.pins.contains pin = true →
      checkContact i (.ofDiffs i (old.diff new)) p (pinContact id pin) = .ok ()) :
    w.prepare new (old.diff new) i = .ok p := by
  have hedges : (GraphDiff.addedEdges new (old.diff new)).forM (fun e => do
      checkContact i (.ofDiffs i (old.diff new)) p e.sourceContact
      checkContact i (.ofDiffs i (old.diff new)) p e.targetContact) = .ok () := by
    refine forM_eq_ok fun e he => ?_
    obtain ⟨k, hk, -⟩ := Graph.mem_addedEdges.1 he
    obtain ⟨n, hn, hpin⟩ := ha.sources k e hk
    obtain ⟨n', hn', hpin', -⟩ := ha.targets k e hk
    have hsource := hcontacts _ n _ hn (n.contains_pins_iff.2 ⟨_, hpin⟩)
    exact bind_eq_ok.2 ⟨(), hsource, hcontacts _ n' _ hn' hpin'⟩
  exact bind_eq_ok.2 ⟨p, hp, bind_eq_ok.2 ⟨(), hedges, rfl⟩⟩

/-- A graph of which all nodes can be made is prepared in full, unless two of its nodes come under one registration. -/
theorem prepare_cases {b : Board} {aspects : AspectRegistry} {naming : Naming} {g : Graph} (hg : g.Grounded)
    (ha : b.Anchored aspects naming g) (hm : w.CanMakeAll g) :
    (g.Apart ∧ ∃ p, w.prepare g (Graph.empty.diff g) {} = .ok p) ∨
      ∃ gadget, g.Clashes gadget ∧
        w.prepare g (Graph.empty.diff g) {} = .error (.gadget (.duplicate gadget)) := by
  have hadded {n : Node} (hn : n ∈ GraphDiff.addedNodes g (Graph.empty.diff g)) : g.nodes.get? n.id = some n := by
    obtain ⟨id, hid, -⟩ := Graph.mem_addedNodes.1 hn
    rwa [hg.node_id id n hid]
  rcases prepareNodes_cases (w := w) (r := .ofDiffs {} (Graph.empty.diff g)) (p := {})
    (fun n hn => hm n.id n (hadded hn)) hg.pairwise_addedNodes
    (fun n hn => hg.undotted n.id (Dict.contains_of_get? (hadded hn))) (fun _ _ _ => rfl) with
    ⟨p, hp⟩ | ⟨n, hn, herror, hclash⟩
  · have hprepare : w.prepare g (Graph.empty.diff g) {} = .ok p := by
      refine prepare_of_prepareNodes ha hp fun id n pin hn hpin => ?_
      have hprepared : p.lattices.contains (pinContact id pin) = true := by
        apply (lattices_of_prepareNodes hp _).2
        exact .inl ⟨n, Graph.mem_addedNodes.2 ⟨id, hn, rfl⟩, pin, hpin, by rw [hg.node_id id n hn]⟩
      rw [checkContact, hprepared, Bool.or_true, if_pos rfl]
    have hready := ready_of_prepare (Installation.mirrors_empty {}) Graph.grounded_empty hg
      (Graph.agrees_empty_left g) hprepare
    exact .inl ⟨hready.apart, p, hprepare⟩
  · rcases hclash with hno | ⟨m, hmem, hne, hsame⟩
    · cases hno
    · refine .inr ⟨n.registrationId, ⟨m.id, n.id, m, n, hne, hadded hmem, hadded hn, hsame, rfl⟩, ?_⟩
      rw [prepare, prepareNodes, herror]
      rfl

/-! ## Plans -/

theorem CanMake.of_same {n n' : Node} (h : w.CanMake n) (ha : n.Alike n') (ht : n.template = n'.template)
    (hp : n.params = n'.params)
    (hl : ∀ pin spec, n'.pins.get? pin = some spec →
      ∃ l, w.lattices.get (spec.lattice.getD w.defaultLattice) = .ok l) : w.CanMake n' := by
  obtain ⟨⟨gadget, hgadget, hpins⟩, -⟩ := h
  rw [ht, hp] at hgadget
  refine ⟨⟨gadget, hgadget, fun pin hpin => ?_⟩, hl⟩
  have hdirection := ha.direction?_eq pin
  have hin := hpins pin hpin
  rw [Node.hasInput_iff] at hin ⊢
  exact hdirection.trans hin

/-- Whatever is proposed with no objection to its new nodes, all of its nodes can be made if those in place can. A
gadget that stays has the node that it had, and a shim takes its lattice from a gadget. -/
theorem canMakeAll_of_propose {aspects : AspectRegistry} {naming : Naming} {b : Binder}
    (h : b.Kept aspects naming) (hn : naming.Faithful) (hm : w.CanMakeAll b.graph) {edit : BoardEdit}
    {y : BoundBoard} {diffs : List GraphDiff} (hp : b.propose w.checkNodes edit = .ok (y, diffs)) :
    w.CanMakeAll y.graph := by
  obtain ⟨hy, x, hx, hbeside⟩ := h.beside hp
  obtain ⟨-, rfl, hcheck⟩ := Binder.candidate_of_propose hp
  have hsettled := h.settled x hx
  have hgraph : b.graph = x.graph := Binder.graph_of_bound hx
  have hagrees := h.agrees hn hp
  have hanchored := Board.anchored_of_realize hn hsettled.valid hsettled.realized
  have hanchored' := Board.anchored_of_realize hn hy.valid hy.realized
  have hid := (Board.grounds_of_realize hsettled.realized).node_id
  have hid' := (Board.grounds_of_realize hy.realized).node_id
  rw [hgraph] at hagrees hm hcheck
  have hgadgets : ∀ id n, y.graph.nodes.get? id = some n → n.kind = .gadget → w.CanMake n := by
    intro id n hget hk
    cases hold : x.graph.nodes.get? id with
    | none => exact canMake_of_checkNodes hcheck hget (Dict.contains_eq_false_iff.2 hold)
    | some m =>
      have hseat := hanchored.seats id m hold ((hagrees.nodes id m n hold hget).kind_eq.symm.trans hk)
      have hsame := hbeside.seat_eq hn hsettled.valid hy.valid hseat (hanchored'.seats id n hget hk)
        ((hid id m hold).trans (hid' id n hget).symm)
      exact hsame ▸ hm id m hold
  intro id n hget
  cases hk : n.kind with
  | gadget => exact hgadgets id n hget hk
  | shim =>
    cases hold : x.graph.nodes.get? id with
    | none => exact canMake_of_checkNodes hcheck hget (Dict.contains_eq_false_iff.2 hold)
    | some m =>
      have halike := hagrees.nodes id m n hold hget
      obtain ⟨hembodies, -⟩ := hanchored.shims id m hold (halike.kind_eq.symm.trans hk)
      obtain ⟨hembodies', source, s, pin, spec, hs, hsk, hspec, hpins⟩ := hanchored'.shims id n hget hk
      obtain ⟨ht, hparams⟩ := hembodies.same hn hembodies' halike.id_eq.symm
      refine (hm id m hold).of_same halike ht hparams fun pin' spec' hspec' => ?_
      rw [hpins] at hspec'
      rw [Manifest.get?_shimPins hspec']
      exact (hgadgets source s hs hsk).lattices pin spec hspec

end Workshop

end Patchbay
