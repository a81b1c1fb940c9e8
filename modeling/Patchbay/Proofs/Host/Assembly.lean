import Patchbay.Proofs.Gadget.Turn
import Patchbay.Proofs.Host.Preparation
import Patchbay.Proofs.Host.Steps

/-! The steps from one graph to another, carried out in order. Edges go before nodes do and nodes come before edges do, so
that every step finds what it needs; and what is in place at the end mirrors the graph that the steps lead to. -/

namespace Patchbay

namespace Graph

variable {g new : Graph}

theorem Grounded.eraseNode (hg : g.Grounded) {id : NodeId}
    (hfree : ∀ k e, g.edges.get? k = some e → e.source ≠ id ∧ e.target ≠ id) :
    Grounded { g with nodes := g.nodes.erase id } where
  node_id id' n hn := hg.node_id id' n (Dict.get?_erase_eq_some.1 hn).2
  undotted id' hid := hg.undotted id' ((Dict.contains_erase ..).1 hid).2
  edge_id := hg.edge_id
  ends k e he := by
    obtain ⟨hs, ht⟩ := hg.ends k e he
    obtain ⟨hne, hne'⟩ := hfree k e he
    exact ⟨(Dict.contains_erase ..).2 ⟨hne, hs⟩, (Dict.contains_erase ..).2 ⟨hne', ht⟩⟩

theorem Grounded.addNode (hg : g.Grounded) {n : Node} (hdot : '.' ∉ n.id.toList) : (g.addNode n).Grounded where
  node_id id m hm := by
    rcases Dict.get?_insert_eq_some.1 hm with ⟨rfl, rfl⟩ | ⟨-, hm⟩
    · rfl
    · exact hg.node_id id m hm
  undotted id hid := by
    rcases (Dict.contains_insert ..).1 hid with rfl | hid
    · exact hdot
    · exact hg.undotted id hid
  edge_id := hg.edge_id
  ends k e he := by
    obtain ⟨hs, ht⟩ := hg.ends k e he
    exact ⟨(Dict.contains_insert ..).2 (.inr hs), (Dict.contains_insert ..).2 (.inr ht)⟩

/-- What is left of a graph on the way to another, as the other has it. -/
def shared (g new : Graph) : Graph where
  nodes := new.nodes.filter fun id _ => g.nodes.contains id
  edges := new.edges.filter fun k _ => g.edges.contains k

theorem get?_nodes_shared {id : NodeId} {n : Node} :
    (g.shared new).nodes.get? id = some n ↔ new.nodes.get? id = some n ∧ g.nodes.contains id = true := by
  rw [shared, Dict.get?_filter, Option.filter_eq_some_iff]

theorem get?_edges_shared {k : EdgeId} {e : Edge} :
    (g.shared new).edges.get? k = some e ↔ new.edges.get? k = some e ∧ g.edges.contains k = true := by
  rw [shared, Dict.get?_filter, Option.filter_eq_some_iff]

theorem grounded_shared (hg : g.Grounded) (hnew : new.Grounded) (ha : g.Agrees new) :
    (g.shared new).Grounded where
  node_id id n hn := hnew.node_id id n (get?_nodes_shared.1 hn).1
  undotted id hid := hnew.undotted id (Dict.contains_filter.1 hid).1
  edge_id k e he := hnew.edge_id k e (get?_edges_shared.1 he).1
  ends k e he := by
    obtain ⟨he, hk⟩ := get?_edges_shared.1 he
    obtain ⟨old, hold⟩ := Dict.contains_iff.1 hk
    obtain ⟨hs, ht⟩ := hnew.ends k e he
    -- the edge led between the same nodes before
    obtain ⟨tags, rfl⟩ := ha.edges k old e hold he
    obtain ⟨hs', ht'⟩ := hg.ends k old hold
    exact ⟨Dict.contains_filter.2 ⟨hs, hs'⟩, Dict.contains_filter.2 ⟨ht, ht'⟩⟩

end Graph

namespace Installation

variable {new old g : Graph} {p : Preparation} {s : Progress}

theorem foldlM_removeEdge (new : Graph) (p : Preparation) (ks : List EdgeId) (h : s.installation.Mirrors g)
    (hw : s.installation.store.Wired) :
    ∃ s', (ks.map GraphDiff.removeEdge).foldlM (step new p) s = .ok s' ∧
      s'.installation.Mirrors { g with edges := ks.foldl Dict.erase g.edges } ∧
      s'.installation.store.Wired := by
  induction ks generalizing s g with
  | nil => exact ⟨s, rfl, h, hw⟩
  | cons k rest ih =>
    obtain ⟨h₁, hw₁⟩ := h.removeEdge hw k
    exact ih (s := { s with installation := s.installation.removeEdge k }) h₁ hw₁

theorem foldlM_removeNode (new : Graph) (p : Preparation) {ids : List NodeId} (h : s.installation.Mirrors g)
    (hw : s.installation.store.Wired) (hg : g.Grounded)
    (hfree : ∀ id ∈ ids, ∀ k e, g.edges.get? k = some e → e.source ≠ id ∧ e.target ≠ id) :
    ∃ s', (ids.map GraphDiff.removeNode).foldlM (step new p) s = .ok s' ∧
      s'.installation.Mirrors { g with nodes := ids.foldl Dict.erase g.nodes } ∧
      s'.installation.store.Wired := by
  induction ids generalizing s g with
  | nil => exact ⟨s, rfl, h, hw⟩
  | cons id rest ih =>
    have hid := hfree id List.mem_cons_self
    obtain ⟨i, hi, h₁, hw₁⟩ := h.removeNode hw hg hid
    obtain ⟨s', hs', hm⟩ := ih (s := { s with installation := i }) h₁ hw₁ (hg.eraseNode hid)
      fun id' hid' => hfree id' (List.mem_cons_of_mem id hid')
    refine ⟨s', ?_, hm⟩
    have hstep : step new p s (.removeNode id) = .ok { s with installation := i } := by
      simp only [step, hi, bind, Except.bind, pure, Except.pure]
    rw [List.map_cons, List.foldlM_cons, hstep]
    exact hs'

/-- New nodes come in any order, for none needs another. -/
theorem foldlM_addNode {ids : List NodeId} (h : s.installation.Mirrors g) (hw : s.installation.store.Wired)
    (hg : g.Grounded) (hnew : new.Grounded) (hp : p.Ready old new) (hnodup : ids.Nodup)
    (hids : ∀ id ∈ ids, new.nodes.contains id = true ∧ old.nodes.contains id = false ∧
      g.nodes.contains id = false)
    (hsub : ∀ id n, g.nodes.get? id = some n → new.nodes.get? id = some n) :
    ∃ s' g', (ids.map GraphDiff.addNode).foldlM (step new p) s = .ok s' ∧ s'.installation.Mirrors g' ∧
      s'.installation.store.Wired ∧ g'.edges = g.edges ∧
      ∀ id, g'.nodes.get? id = if id ∈ ids then new.nodes.get? id else g.nodes.get? id := by
  induction ids generalizing s g with
  | nil => exact ⟨s, g, rfl, h, hw, rfl, fun id => rfl⟩
  | cons id rest ih =>
    obtain ⟨hnotin, hrest⟩ := List.nodup_cons.1 hnodup
    obtain ⟨hin, hold, hnot⟩ := hids id List.mem_cons_self
    obtain ⟨n, hn⟩ := Dict.contains_iff.1 hin
    obtain rfl := hnew.node_id id n hn
    have hdot := hnew.undotted n.id hin
    obtain ⟨gadget, hgadget, hpins⟩ := hp.made n.id n hn hold
    obtain ⟨i, hi, h₁, hw₁⟩ := h.addNode hw hg hdot (Dict.contains_eq_false_iff.1 hnot)
      (fun id m hm he => by
        obtain rfl := hp.apart id n.id m n (hsub id m hm) hn he
        rw [Dict.contains_of_get? hm] at hnot
        cases hnot)
      hgadget hpins (hp.lattices n.id n hn hold)
    obtain ⟨s', g', hs', hm', hw', hedges, hnodes⟩ := ih (s := { s with installation := i }) h₁ hw₁
      (hg.addNode hdot) hrest
      (fun id hid => by
        obtain ⟨hin', hold', hnot'⟩ := hids id (List.mem_cons_of_mem _ hid)
        refine ⟨hin', hold', ?_⟩
        rw [Bool.eq_false_iff, ne_eq, Graph.addNode, Dict.contains_insert, hnot']
        rintro (rfl | hc)
        · exact hnotin hid
        · cases hc)
      (fun id m hm => by
        rcases Dict.get?_insert_eq_some.1 hm with ⟨rfl, rfl⟩ | ⟨-, hm⟩
        · exact hn
        · exact hsub id m hm)
    refine ⟨s', g', ?_, hm', hw', hedges, fun id => ?_⟩
    · have hstep : step new p s (.addNode n.id) = .ok { s with installation := i } := by
        simp only [step, hn, hi, bind, Except.bind, pure, Except.pure]
      rw [List.map_cons, List.foldlM_cons, hstep]
      exact hs'
    · rw [hnodes, Graph.addNode, Dict.get?_insert]
      by_cases hid : id = n.id <;> by_cases hmem : id ∈ rest <;> simp [hid, hmem, hn]

theorem foldlM_addEdge {ks : List EdgeId} (h : s.installation.Mirrors g) (hw : s.installation.store.Wired)
    (hnew : new.Grounded) (hp : p.Ready old new) (hnodup : ks.Nodup)
    (hks : ∀ k ∈ ks, new.edges.contains k = true ∧ old.edges.contains k = false ∧
      g.edges.contains k = false)
    (hnodes : ∀ id, g.nodes.get? id = new.nodes.get? id) :
    ∃ s' g', (ks.map GraphDiff.addEdge).foldlM (step new p) s = .ok s' ∧ s'.installation.Mirrors g' ∧
      s'.installation.store.Wired ∧ g'.nodes = g.nodes ∧
      ∀ k, g'.edges.get? k = if k ∈ ks then new.edges.get? k else g.edges.get? k := by
  induction ks generalizing s g with
  | nil => exact ⟨s, g, rfl, h, hw, rfl, fun k => rfl⟩
  | cons k rest ih =>
    obtain ⟨hnotin, hrest⟩ := List.nodup_cons.1 hnodup
    obtain ⟨hin, hold, hnot⟩ := hks k List.mem_cons_self
    obtain ⟨e, he⟩ := Dict.contains_iff.1 hin
    obtain rfl := hnew.edge_id k e he
    obtain ⟨⟨n, hn, hpin⟩, m, hm, hpin'⟩ := hp.anchored e.id e he hold
    obtain ⟨i, hi, h₁, hw₁⟩ := h.addEdge hw (Dict.contains_eq_false_iff.1 hnot)
      ((h.contacts _).2 ⟨e.source, n, e.sourcePin, (hnodes _).trans hn, hpin, rfl⟩)
      ((h.contacts _).2 ⟨e.target, m, e.targetPin, (hnodes _).trans hm, hpin', rfl⟩)
    obtain ⟨s', g', hs', hm', hw', hnodes', hedges⟩ :=
      ih (s := { installation := i, sources := s.sources.add e.sourceContact }) h₁ hw₁ hrest
      (fun k hk => by
        obtain ⟨hin', hold', hnot'⟩ := hks k (List.mem_cons_of_mem _ hk)
        refine ⟨hin', hold', ?_⟩
        rw [Bool.eq_false_iff, ne_eq, Graph.addEdge, Dict.contains_insert, hnot']
        rintro (rfl | hc)
        · exact hnotin hk
        · cases hc) hnodes
    refine ⟨s', g', ?_, hm', hw', hnodes', fun k => ?_⟩
    · have hstep : step new p s (.addEdge e.id) =
          .ok { installation := i, sources := s.sources.add e.sourceContact } := by
        simp only [step, he, hi, bind, Except.bind, pure, Except.pure]
      rw [List.map_cons, List.foldlM_cons, hstep]
      exact hs'
    · rw [hedges, Graph.addEdge, Dict.get?_insert]
      by_cases hk : k = e.id <;> by_cases hmem : k ∈ rest <;> simp [hk, hmem, he]

variable {i : Installation}

/-- What goes leaves what is shared. The graph that steps look new things up in does not matter to it. -/
theorem foldlM_removals (g : Graph) (p : Preparation) (h : i.Mirrors old) (hw : i.store.Wired)
    (hold : old.Grounded) (hnew : new.Grounded) (ha : old.Agrees new) :
    ∃ s, ((Graph.missingFrom old.edges new.edges).map GraphDiff.removeEdge ++
        (Graph.missingFrom old.nodes new.nodes).map GraphDiff.removeNode).foldlM (step g p) { installation := i } =
          .ok s ∧ s.installation.Mirrors (old.shared new) ∧ s.installation.store.Wired := by
  obtain ⟨s₁, hs₁, h₁, hw₁⟩ := foldlM_removeEdge g p (s := { installation := i })
    (Graph.missingFrom old.edges new.edges) h hw
  set g₁ : Graph := { old with edges := (Graph.missingFrom old.edges new.edges).foldl Dict.erase old.edges }
    with hg₁
  have hedges {k e} : g₁.edges.get? k = some e ↔ old.edges.get? k = some e ∧ new.edges.contains k = true :=
    Graph.get?_foldl_erase_missingFrom
  have hground : g₁.Grounded := ⟨hold.node_id, hold.undotted,
    fun k e he => hold.edge_id k e (hedges.1 he).1, fun k e he => hold.ends k e (hedges.1 he).1⟩
  -- the edges that are left lead between nodes that stay
  have hfree : ∀ id ∈ Graph.missingFrom old.nodes new.nodes, ∀ k e, g₁.edges.get? k = some e →
      e.source ≠ id ∧ e.target ≠ id := by
    intro id hid k e he
    obtain ⟨he, hk⟩ := hedges.1 he
    obtain ⟨e', he'⟩ := Dict.contains_iff.1 hk
    obtain ⟨hs, ht⟩ := hnew.ends k e' he'
    obtain ⟨tags, rfl⟩ := ha.edges k e e' he he'
    have hgone := Bool.eq_false_iff.1 (Graph.mem_missingFrom.1 hid).2
    exact ⟨fun hc => hgone (hc ▸ hs), fun hc => hgone (hc ▸ ht)⟩
  obtain ⟨s₂, hs₂, h₂, hw₂⟩ := foldlM_removeNode g p h₁ hw₁ hground hfree
  refine ⟨s₂, ?_, h₂.congr ⟨fun id n n' hn hn' => ?_, fun k e e' he he' => ?_⟩ (fun id => ?_) fun k => ?_, hw₂⟩
  · rw [List.foldlM_append, hs₁]
    exact hs₂
  · exact ha.nodes id n n' (Graph.get?_foldl_erase_missingFrom.1 hn).1 (Graph.get?_nodes_shared.1 hn').1
  · exact ha.edges k e e' (hedges.1 he).1 (Graph.get?_edges_shared.1 he').1
  · rw [Graph.shared, Dict.contains_filter, Graph.contains_foldl_erase_missingFrom, and_comm]
  · rw [Graph.shared, Dict.contains_filter, hg₁, Graph.contains_foldl_erase_missingFrom, and_comm]

/-- What comes completes what is shared. -/
theorem foldlM_additions (h : s.installation.Mirrors (old.shared new)) (hw : s.installation.store.Wired)
    (hold : old.Grounded) (hnew : new.Grounded) (ha : old.Agrees new) (hp : p.Ready old new) :
    ∃ s', ((Graph.missingFrom new.nodes old.nodes).map GraphDiff.addNode ++
        (Graph.missingFrom new.edges old.edges).map GraphDiff.addEdge).foldlM (step new p) s = .ok s' ∧
      s'.installation.Mirrors new ∧ s'.installation.store.Wired := by
  obtain ⟨s₁, g₁, hs₁, h₁, hw₁, hedges, hnodes⟩ := foldlM_addNode h hw (Graph.grounded_shared hold hnew ha) hnew
    hp (Graph.nodup_missingFrom new.nodes old.nodes)
    (fun id hid => by
      obtain ⟨hin, hout⟩ := Graph.mem_missingFrom.1 hid
      refine ⟨hin, hout, Bool.eq_false_iff.2 fun hc => ?_⟩
      exact Bool.eq_false_iff.1 hout (Dict.contains_filter.1 hc).2)
    fun id n hn => (Graph.get?_nodes_shared.1 hn).1
  have hall (id : NodeId) : g₁.nodes.get? id = new.nodes.get? id := by
    rw [hnodes]
    exact Graph.get?_missingFrom new.nodes old.nodes id
  obtain ⟨s₂, g₂, hs₂, h₂, hw₂, hnodes₂, hedges₂⟩ := foldlM_addEdge h₁ hw₁ hnew hp
    (Graph.nodup_missingFrom new.edges old.edges)
    (fun k hk => by
      obtain ⟨hin, hout⟩ := Graph.mem_missingFrom.1 hk
      refine ⟨hin, hout, Bool.eq_false_iff.2 fun hc => ?_⟩
      rw [hedges] at hc
      exact Bool.eq_false_iff.1 hout (Dict.contains_filter.1 hc).2)
    hall
  have hnode : g₂.nodes = new.nodes := hnodes₂.trans (Dict.ext_get? hall)
  have hedge : g₂.edges = new.edges := by
    apply Dict.ext_get?
    intro k
    rw [hedges₂, hedges]
    exact Graph.get?_missingFrom new.edges old.edges k
  refine ⟨s₂, ?_, ⟨hnode ▸ h₂.contacts, hnode ▸ h₂.gadgets, hedge ▸ h₂.connections⟩, hw₂⟩
  rw [List.foldlM_append, hs₁]
  exact hs₂

/-- No step of a change that is ready fails, and together they lead to the new graph. -/
theorem foldlM_diff (h : i.Mirrors old) (hw : i.store.Wired) (hold : old.Grounded) (hnew : new.Grounded)
    (ha : old.Agrees new) (hp : p.Ready old new) :
    ∃ s, (old.diff new).foldlM (step new p) { installation := i } = .ok s ∧ s.installation.Mirrors new ∧
      s.installation.store.Wired := by
  obtain ⟨s₁, hs₁, h₁, hw₁⟩ := foldlM_removals new p h hw hold hnew ha
  obtain ⟨s₂, hs₂, h₂, hw₂⟩ := foldlM_additions h₁ hw₁ hold hnew ha hp
  refine ⟨s₂, ?_, h₂, hw₂⟩
  rw [Graph.diff, List.append_assoc, List.foldlM_append, hs₁]
  exact hs₂

theorem foldl_stepOrSkip {diffs : List GraphDiff} {s s' : Progress}
    (h : diffs.foldlM (step new p) s = .ok s') : diffs.foldl (stepOrSkip new p) s = s' := by
  induction diffs generalizing s with
  | nil =>
    cases h
    rfl
  | cons d rest ih =>
    rw [List.foldlM_cons] at h
    obtain ⟨s₁, hd, hrest⟩ := ok_of_bind h
    rw [List.foldl_cons, stepOrSkip, hd]
    exact ih hrest

/-- What a step does that goes through: nothing where there is nothing to do, and else it drops a connection, takes a gadget
out with its contacts, puts a gadget in with its contacts, or makes a connection. -/
theorem step_cases {d : GraphDiff} {s' : Progress} (h : step g p s d = .ok s') :
    s' = s ∨
    (∃ k id, s' = { s with installation :=
      { s.installation.withStore (s.installation.store.dropConnection id) with
        connections := s.installation.connections.erase k } }) ∨
    (∃ id gadget executor mount store, s.installation.executor.unregister gadget = .ok (executor, mount) ∧
      mount.contacts.foldlM dropContact s.installation.store = .ok store ∧
      s' = { s with installation :=
        { (s.installation.withStore store).withExecutor executor with gadgets := s.installation.gadgets.erase id } }) ∨
    (∃ (n : Node) (gadget : Gadget) (executor : Executor) (store : ContactStore),
      n.pins.entries.foldlM (addContact p n.id) s.installation.store = .ok store ∧
      s.installation.executor.register n.registrationId gadget n.mount = .ok executor ∧
      s' = { s with installation :=
        { (s.installation.withStore store).withExecutor executor with
          gadgets := s.installation.gadgets.insert n.id n.registrationId } }) ∨
    ∃ (e : Edge) (store : ContactStore) (connection : ConnectionId),
      s.installation.store.connect e.wire e.sourceContact e.targetContact = .ok (store, connection) ∧
      s' = {
        installation := { s.installation.withStore store with
          connections := s.installation.connections.insert e.id connection }
        sources := s.sources.add e.sourceContact } := by
  cases d with
  | removeEdge k =>
    simp only [step, removeEdge] at h
    split at h
    · cases h
      exact .inl rfl
    · next id _ =>
      cases h
      exact .inr (.inl ⟨k, id, rfl⟩)
  | removeNode id =>
    obtain ⟨i, hi, h⟩ := ok_of_bind h
    cases h
    unfold removeNode at hi
    split at hi
    · cases hi
      exact .inl rfl
    · next gadget _ =>
      obtain ⟨⟨executor, mount⟩, hx, hi⟩ := ok_of_bind hi
      obtain ⟨store, hs, hi⟩ := ok_of_bind hi
      cases hi
      exact .inr (.inr (.inl ⟨id, gadget, executor, mount, store, ok_of_mapError hx, hs, rfl⟩))
  | addNode id =>
    simp only [step] at h
    split at h
    · cases h
      exact .inl rfl
    next n _ =>
    obtain ⟨i, hi, h⟩ := ok_of_bind h
    cases h
    unfold addNode at hi
    split at hi
    · cases hi
    next gadget _ =>
    obtain ⟨store, hs, hi⟩ := ok_of_bind hi
    obtain ⟨executor, hx, hi⟩ := ok_of_bind hi
    cases hi
    exact .inr (.inr (.inr (.inl ⟨n, gadget, executor, store, hs, ok_of_mapError hx, rfl⟩)))
  | addEdge k =>
    simp only [step] at h
    split at h
    · cases h
      exact .inl rfl
    next e _ =>
    obtain ⟨i, hi, h⟩ := ok_of_bind h
    cases h
    obtain ⟨⟨store, connection⟩, hc, hi⟩ := ok_of_bind hi
    cases hi
    exact .inr (.inr (.inr (.inr ⟨e, store, connection, ok_of_mapError hc, rfl⟩)))

theorem skipped_of_step {d : GraphDiff} {s' : Progress} (h : step new p s d = .ok s') :
    s'.installation.skipped = s.installation.skipped := by
  rcases step_cases h with rfl | ⟨_, _, rfl⟩ | ⟨_, _, _, _, _, -, -, rfl⟩ | ⟨_, _, _, _, -, -, rfl⟩ |
    ⟨_, _, _, -, rfl⟩ <;> rfl

/-! ## Values -/

/-- Values and counts do not matter to what is mirrored. -/
theorem Mirrors.sameSetup (h : i.Mirrors g) {bench : Bench} (hs : i.bench.SameSetup bench) :
    Mirrors { i with bench } g := by
  have hcontains (r : GadgetId) : bench.executor.contains r = i.executor.contains r := by
    have hmap := congrArg Option.isSome (hs.mounts r)
    rw [Option.isSome_map, Option.isSome_map] at hmap
    exact hmap
  refine ⟨fun c => ?_, ⟨h.gadgets.get?_eq, fun r => ?_, h.gadgets.apart, fun id n hn => ?_⟩, ?_⟩
  · rw [← h.contacts c]
    exact Bool.eq_iff_iff.1 (hs.network.contains_eq c)
  · rw [← h.gadgets.registered_iff r]
    exact Bool.eq_iff_iff.1 (hcontains r)
  · obtain ⟨x, hx, hi, ho⟩ := h.gadgets.mounted id n hn
    obtain ⟨x', hx', -, hm⟩ := hs.get? hx
    exact ⟨x', hx', hm ▸ hi, hm ▸ ho⟩
  · show ConnectionsFor bench.engine.store.connections i.connections g.edges
    rw [hs.network.connections_eq]
    exact h.connections

theorem advances_flush (sources : List ContactId) (acc : Engine × PropagationStats) :
    acc.1.store.Advances (sources.foldl flush acc).1.store ∧
      (sources.foldl flush acc).1.limits = acc.1.limits := by
  refine foldl_keeps (P := fun x : Engine × PropagationStats =>
    acc.1.store.Advances x.1.store ∧ x.1.limits = acc.1.limits) (fun x source _ hx => ?_) ⟨.refl _, rfl⟩
  unfold flush
  split
  · next hp => exact ⟨hx.1.trans (Engine.advances_propagate hp), (Engine.limits_propagate hp).trans hx.2⟩
  · exact hx

/-- Steps that all go through are installed as a whole, and none is noted as left out. -/
theorem install_of_foldlM {diffs : List GraphDiff} (hs : diffs.foldlM (step g p) { installation := i } = .ok s)
    (hm : s.installation.Mirrors new) (hw : s.installation.store.Wired) :
    (i.install g diffs p).1.Mirrors new ∧ (i.install g diffs p).1.store.Wired ∧
      (i.install g diffs p).1.skipped = i.skipped := by
  have hskipped : s.installation.skipped = i.skipped :=
    foldlM_keeps (P := fun s : Progress => s.installation.skipped = i.skipped)
      (fun s d _ s' hP hd => (skipped_of_step hd).trans hP) rfl hs
  unfold Installation.install
  rw [foldl_stepOrSkip hs]
  obtain ⟨hadv, hlimits⟩ := advances_flush s.sources.keys (s.installation.bench.engine, {})
  exact ⟨hm.sameSetup (.of_engine rfl hadv.toSameNetwork hlimits), hadv.wired hw, hskipped⟩

/-- A change that is ready leads to the new graph. -/
theorem Mirrors.install (h : i.Mirrors old) (hw : i.store.Wired) (hold : old.Grounded) (hnew : new.Grounded)
    (ha : old.Agrees new) (hp : p.Ready old new) :
    (i.install new (old.diff new) p).1.Mirrors new ∧ (i.install new (old.diff new) p).1.store.Wired ∧
      (i.install new (old.diff new) p).1.skipped = i.skipped := by
  obtain ⟨s, hs, hm, hw'⟩ := foldlM_diff h hw hold hnew ha hp
  exact install_of_foldlM hs hm hw'

/-- Nothing needs to be ready for everything to go. -/
theorem Mirrors.dismantle (h : i.Mirrors old) (hw : i.store.Wired) (hold : old.Grounded) :
    (i.install old (old.diff .empty) p).1.Mirrors .empty ∧
      (i.install old (old.diff .empty) p).1.skipped = i.skipped := by
  obtain ⟨s, hs, hm, hw'⟩ := foldlM_removals old p h hw hold Graph.grounded_empty (Graph.agrees_empty_right old)
  have hdiff : old.diff .empty = (Graph.missingFrom old.edges Graph.empty.edges).map GraphDiff.removeEdge ++
      (Graph.missingFrom old.nodes Graph.empty.nodes).map GraphDiff.removeNode := by
    rw [Graph.diff, List.append_assoc]
    exact List.append_nil _
  obtain ⟨hm', -, hskipped⟩ := install_of_foldlM (hdiff ▸ hs) hm hw'
  exact ⟨hm', hskipped⟩

end Installation

end Patchbay
