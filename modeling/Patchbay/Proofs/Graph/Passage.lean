import Patchbay.Proofs.Graph.Replay

/-! On the way from one graph to another. Edges go before the nodes that they join and come after them, so that wherever
a replay stops, no edge is without its nodes. -/

namespace Patchbay

namespace GraphDiff

/-- The part that a step is about. -/
def part : GraphDiff → GraphPart
  | .addNode id => .node id
  | .removeNode id => .node id
  | .addEdge id => .edge id
  | .removeEdge id => .edge id

/-- The place of a step among the four kinds: edges go, nodes go, nodes come, edges come. -/
def rank : GraphDiff → Nat
  | .removeEdge _ => 0
  | .removeNode _ => 1
  | .addNode _ => 2
  | .addEdge _ => 3

theorem part_add (x : GraphPart) : (add x).part = x := by cases x <;> rfl

theorem part_remove (x : GraphPart) : (remove x).part = x := by cases x <;> rfl

theorem replayStep?_add (s : Finset GraphPart) (x : GraphPart) : replayStep? s (add x) = GraphPart.bring? s x := by
  cases x <;> rfl

theorem replayStep?_remove (s : Finset GraphPart) (x : GraphPart) :
    replayStep? s (remove x) = GraphPart.take? s x := by
  cases x <;> rfl

theorem eq_add_or_eq_remove (d : GraphDiff) : d = add d.part ∨ d = remove d.part := by
  cases d
  · exact .inl rfl
  · exact .inr rfl
  · exact .inl rfl
  · exact .inr rfl

theorem add_inj {x y : GraphPart} : add x = add y ↔ x = y :=
  ⟨fun h => by rw [← part_add x, h, part_add], congrArg add⟩

theorem remove_inj {x y : GraphPart} : remove x = remove y ↔ x = y :=
  ⟨fun h => by rw [← part_remove x, h, part_remove], congrArg remove⟩

theorem add_ne_remove (x y : GraphPart) : add x ≠ remove y := by cases x <;> cases y <;> exact nofun

/-- What there is after steps that name no part twice: what came, and what was there and did not go. -/
theorem mem_of_replay? {s t : Finset GraphPart} {steps : List GraphDiff} (honce : (steps.map part).Nodup)
    (h : replay? s steps = some t) {x : GraphPart} : x ∈ t ↔ (x ∈ s ∧ remove x ∉ steps) ∨ add x ∈ steps := by
  induction steps generalizing s with
  | nil =>
    cases h
    simp
  | cons d rest ih =>
    obtain ⟨hnew, hrest⟩ := List.nodup_cons.1 honce
    rw [replay?, List.foldlM_cons] at h
    obtain ⟨s', hd, h⟩ := Option.bind_eq_some_iff.1 h
    rw [ih hrest h, List.mem_cons, List.mem_cons]
    generalize hy : d.part = y at hnew
    have hadd : add y ∉ rest := fun hmem => hnew (part_add y ▸ List.mem_map_of_mem hmem)
    have hremove : remove y ∉ rest := fun hmem => hnew (part_remove y ▸ List.mem_map_of_mem hmem)
    rcases hy ▸ eq_add_or_eq_remove d with rfl | rfl
    · rw [replayStep?_add, GraphPart.bring?] at hd
      split at hd <;> cases hd
      rw [Finset.mem_insert, add_inj]
      have hne := (add_ne_remove y x).symm
      by_cases hx : x = y
      · subst hx
        tauto
      · tauto
    · rw [replayStep?_remove, GraphPart.take?] at hd
      split at hd <;> cases hd
      rw [Finset.mem_erase, remove_inj]
      have hne := add_ne_remove x y
      by_cases hx : x = y
      · subst hx
        tauto
      · tauto

end GraphDiff

namespace Graph

/-- A graph in which every edge leads from node to node. -/
def NoLooseEnds (g : Graph) : Prop :=
  ∀ k e, g.edges.get? k = some e → g.nodes.contains e.source = true ∧ g.nodes.contains e.target = true

instance decidableNoLooseEnds (g : Graph) : Decidable g.NoLooseEnds :=
  decidable_of_iff
    (∀ x ∈ g.edges.entries, g.nodes.contains x.2.source = true ∧ g.nodes.contains x.2.target = true)
    ⟨fun h k e he => h (k, e) (Dict.get?_eq_some_iff.1 he), fun h x hx => h x.1 x.2 (Dict.get?_eq_some_iff.2 hx)⟩

/-- No part is named twice on the way from one graph to another. -/
theorem nodup_parts_diff (old new : Graph) : ((old.diff new).map GraphDiff.part).Nodup := by
  obtain ⟨coming, hperm, hdiff⟩ := diff_eq old new
  have hparts : (old.diff new).map GraphDiff.part = old.partsBeyond new ++ coming := by
    rw [hdiff, List.map_append, List.map_map, List.map_map]
    simp [Function.comp_def, GraphDiff.part_add, GraphDiff.part_remove]
  rw [hparts, List.nodup_append']
  refine ⟨nodup_partsBeyond old new, hperm.nodup_iff.2 (nodup_partsBeyond new old), fun x hgo hcome => ?_⟩
  exact (mem_partsBeyond.1 (hperm.mem_iff.1 hcome)).2 (mem_partsBeyond.1 hgo).1

theorem remove_mem_diff {old new : Graph} {x : GraphPart} :
    GraphDiff.remove x ∈ old.diff new ↔ x ∈ old.parts ∧ x ∉ new.parts := by
  cases x <;> simp [diff, GraphDiff.remove, mem_missingFrom, node_mem_parts, edge_mem_parts]

theorem add_mem_diff {old new : Graph} {x : GraphPart} :
    GraphDiff.add x ∈ old.diff new ↔ x ∈ new.parts ∧ x ∉ old.parts := by
  cases x <;> simp [diff, GraphDiff.add, mem_missingFrom, node_mem_parts, edge_mem_parts]

/-- Steps of different kinds stand in the order of their kinds. -/
theorem pairwise_diff (old new : Graph) : (old.diff new).Pairwise fun d d' => d.rank ≤ d'.rank := by
  have hkind (f : String → GraphDiff) (n : Nat) (hf : ∀ id, (f id).rank = n) (ids : List String) :
      (ids.map f).Pairwise fun d d' => d.rank ≤ d'.rank :=
    List.pairwise_map.2 (List.pairwise_of_forall fun id id' => by rw [hf, hf])
  simp only [diff, List.pairwise_append, List.mem_append, List.mem_map]
  refine ⟨⟨⟨hkind .removeEdge 0 (fun _ => rfl) _, hkind .removeNode 1 (fun _ => rfl) _, ?_⟩,
    hkind .addNode 2 (fun _ => rfl) _, ?_⟩, hkind .addEdge 3 (fun _ => rfl) _, ?_⟩
  · rintro _ ⟨_, -, rfl⟩ _ ⟨_, -, rfl⟩
    exact Nat.le_of_ble_eq_true rfl
  · rintro _ (⟨_, -, rfl⟩ | ⟨_, -, rfl⟩) _ ⟨_, -, rfl⟩ <;> exact Nat.le_of_ble_eq_true rfl
  · rintro _ ((⟨_, -, rfl⟩ | ⟨_, -, rfl⟩) | ⟨_, -, rfl⟩) _ ⟨_, -, rfl⟩ <;> exact Nat.le_of_ble_eq_true rfl

/-- A replay that has come to a step has done all that are of an earlier kind. -/
theorem mem_of_rank_lt {old new : Graph} {steps : List GraphDiff} (hsteps : steps <+: old.diff new) {d d' : GraphDiff}
    (hd : d ∈ old.diff new) (hd' : d' ∈ steps) (hlt : d.rank < d'.rank) : d ∈ steps := by
  obtain ⟨rest, hrest⟩ := hsteps
  have hpairwise := hrest ▸ old.pairwise_diff new
  rcases List.mem_append.1 (hrest ▸ hd) with hd | hd
  · exact hd
  · exact absurd hlt ((List.pairwise_append.1 hpairwise).2.2 d' hd' d hd).not_gt

/-! ## On the way -/

/-- The parts at some point on the way. What both graphs have stays all the time, no node has gone as long as an edge is
still to go, and all nodes have come once an edge has. -/
structure Between (old new : Graph) (parts : Finset GraphPart) : Prop where
  either : ∀ x ∈ parts, x ∈ old.parts ∨ x ∈ new.parts
  both : ∀ x ∈ old.parts, x ∈ new.parts → x ∈ parts
  before : ∀ k id, .edge k ∈ parts → .edge k ∉ new.parts → .node id ∈ old.parts → .node id ∈ parts
  after : ∀ k id, .edge k ∈ parts → .edge k ∉ old.parts → .node id ∈ new.parts → .node id ∈ parts

/-- The way can be gone up to any step. -/
theorem between_of_prefix {old new : Graph} {steps : List GraphDiff} (hsteps : steps <+: old.diff new) :
    ∃ parts, GraphDiff.replay? old.parts steps = some parts ∧ Between old new parts := by
  obtain ⟨rest, hrest⟩ := id hsteps
  have hall := replay?_diff old new
  rw [← hrest, GraphDiff.replay?_append] at hall
  obtain ⟨parts, hparts, -⟩ := Option.bind_eq_some_iff.1 hall
  have honce := old.nodup_parts_diff new
  rw [← hrest, List.map_append] at honce
  have hmem (x : GraphPart) : x ∈ parts ↔ (x ∈ old.parts ∧ GraphDiff.remove x ∉ steps) ∨ GraphDiff.add x ∈ steps :=
    GraphDiff.mem_of_replay? honce.of_append_left hparts
  have hgo {x : GraphPart} (hx : GraphDiff.remove x ∈ steps) := remove_mem_diff.1 (hsteps.subset hx)
  have hcome {x : GraphPart} (hx : GraphDiff.add x ∈ steps) := add_mem_diff.1 (hsteps.subset hx)
  have hboth : ∀ x ∈ old.parts, x ∈ new.parts → x ∈ parts :=
    fun x hold hnew => (hmem x).2 (.inl ⟨hold, fun hx => (hgo hx).2 hnew⟩)
  refine ⟨parts, hparts, fun x hx => ?_, hboth, fun k id hk hnew hid => ?_, fun k id hk hold hid => ?_⟩
  · exact ((hmem x).1 hx).imp And.left fun hx => (hcome hx).1
  · obtain ⟨hold, hstays⟩ := ((hmem (.edge k)).1 hk).resolve_right fun hx => hnew (hcome hx).1
    refine (hmem (.node id)).2 (.inl ⟨hid, fun hgone => hstays ?_⟩)
    exact mem_of_rank_lt hsteps (remove_mem_diff.2 ⟨hold, hnew⟩) hgone Nat.zero_lt_one
  · have hcame := ((hmem (.edge k)).1 hk).resolve_left fun hx => hold hx.1
    by_cases hid' : .node id ∈ old.parts
    · exact hboth _ hid' hid
    · have hearlier := mem_of_rank_lt hsteps (add_mem_diff.2 ⟨hid, hid'⟩) hcame (Nat.lt_succ_self 2)
      exact (hmem (.node id)).2 (.inr hearlier)

/-- An edge that is there leads from node to node, if its ends are the same in both graphs where both have it. -/
theorem Between.ends {old new : Graph} {parts : Finset GraphPart} (h : Between old new parts) (hold : old.NoLooseEnds)
    (hnew : new.NoLooseEnds) (hsame : ∀ k e e', old.edges.get? k = some e → new.edges.get? k = some e' →
      e'.source = e.source ∧ e'.target = e.target)
    {k : EdgeId} (hk : .edge k ∈ parts) {e : Edge} (he : old.edges.get? k = some e ∨ new.edges.get? k = some e) :
    .node e.source ∈ parts ∧ .node e.target ∈ parts := by
  have hends {e : Edge} (he : old.edges.get? k = some e) : .node e.source ∈ old.parts ∧ .node e.target ∈ old.parts :=
    (hold k e he).imp node_mem_parts.2 node_mem_parts.2
  have hends' {e : Edge} (he : new.edges.get? k = some e) : .node e.source ∈ new.parts ∧ .node e.target ∈ new.parts :=
    (hnew k e he).imp node_mem_parts.2 node_mem_parts.2
  by_cases hk₁ : .edge k ∈ old.parts
  · obtain ⟨e₁, h₁⟩ := Dict.contains_iff.1 (edge_mem_parts.1 hk₁)
    by_cases hk₂ : .edge k ∈ new.parts
    · obtain ⟨e₂, h₂⟩ := Dict.contains_iff.1 (edge_mem_parts.1 hk₂)
      obtain ⟨hsource, htarget⟩ := hsame k e₁ e₂ h₁ h₂
      have hboth : .node e₁.source ∈ parts ∧ .node e₁.target ∈ parts :=
        ⟨h.both _ (hends h₁).1 (hsource ▸ (hends' h₂).1), h.both _ (hends h₁).2 (htarget ▸ (hends' h₂).2)⟩
      rcases he with he | he
      · rwa [Option.some.inj (he.symm.trans h₁)]
      · rwa [Option.some.inj (he.symm.trans h₂), hsource, htarget]
    · rcases he with he | he
      · exact (hends he).imp (h.before k _ hk hk₂) (h.before k _ hk hk₂)
      · exact absurd (edge_mem_parts.2 (Dict.contains_of_get? he)) hk₂
  · rcases he with he | he
    · exact absurd (edge_mem_parts.2 (Dict.contains_of_get? he)) hk₁
    · exact (hends' he).imp (h.after k _ hk hk₁) (h.after k _ hk hk₁)

/-- The steps from one graph to another, in which no edge is without its nodes, lead from the identities of the one to
those of the other and name none twice, and wherever they are stopped, every edge is there with its nodes. An edge that
both graphs have must have the same ends in both. -/
theorem diff_passes {old new : Graph} (hold : old.NoLooseEnds) (hnew : new.NoLooseEnds)
    (hsame : ∀ k e e', old.edges.get? k = some e → new.edges.get? k = some e' →
      e'.source = e.source ∧ e'.target = e.target) :
    GraphDiff.replay? old.parts (old.diff new) = some new.parts ∧ ((old.diff new).map GraphDiff.part).Nodup ∧
      ∀ steps, steps <+: old.diff new → ∃ parts, GraphDiff.replay? old.parts steps = some parts ∧
        ∀ k, .edge k ∈ parts → (old.edges.contains k = true ∨ new.edges.contains k = true) ∧
          ∀ e, old.edges.get? k = some e ∨ new.edges.get? k = some e →
            .node e.source ∈ parts ∧ .node e.target ∈ parts := by
  refine ⟨replay?_diff old new, nodup_parts_diff old new, fun steps hsteps => ?_⟩
  obtain ⟨parts, hparts, hbetween⟩ := between_of_prefix hsteps
  refine ⟨parts, hparts, fun k hk => ⟨?_, fun e he => hbetween.ends hold hnew hsame hk he⟩⟩
  exact (hbetween.either _ hk).imp edge_mem_parts.1 edge_mem_parts.1

/-- Edges from `a` to a node and from `a` to `c`, of which the second stays whichever node the first leads to. -/
def fork (node : NodeId) : Graph :=
  let n (id : NodeId) : Node := { id, kind := .gadget, template := "echo", pins := ∅, origins := [] }
  let e (id : EdgeId) (target : NodeId) : Edge :=
    { id, wire := id, source := "a", sourcePin := "out", target, targetPin := "in" }
  { nodes := .ofList [("a", n "a"), (node, n node), ("c", n "c")]
    edges := .ofList [("e" ++ node, e ("e" ++ node) node), ("kept", e "kept" "c")] }

/-- Between the nodes that go and those that come, the edge that stays has its nodes. -/
theorem diff_passes_fork : (fork "b").NoLooseEnds ∧ (fork "d").NoLooseEnds ∧
    (fork "b").diff (fork "d") = [.removeEdge "eb", .removeNode "b", .addNode "d", .addEdge "ed"] ∧
    ∃ parts, GraphDiff.replay? (fork "b").parts [.removeEdge "eb", .removeNode "b"] = some parts ∧
      .edge "kept" ∈ parts ∧ .node "a" ∈ parts ∧ .node "c" ∈ parts := by
  have hdiff : (fork "b").diff (fork "d") = [.removeEdge "eb", .removeNode "b", .addNode "d", .addEdge "ed"] := by
    decide +kernel
  have hends : (fork "b").NoLooseEnds ∧ (fork "d").NoLooseEnds := by decide +kernel
  have hsame : ∀ x ∈ (fork "b").edges.entries, ∀ x' ∈ (fork "d").edges.entries, x.1 = x'.1 →
      x'.2.source = x.2.source ∧ x'.2.target = x.2.target := by decide +kernel
  obtain ⟨-, -, hpasses⟩ := diff_passes hends.1 hends.2 fun k e e' he he' =>
    hsame _ (Dict.get?_eq_some_iff.1 he) _ (Dict.get?_eq_some_iff.1 he') rfl
  obtain ⟨parts, hparts, hedges⟩ := hpasses [.removeEdge "eb", .removeNode "b"] ⟨_, hdiff.symm⟩
  have hkept : (GraphDiff.replay? (fork "b").parts [.removeEdge "eb", .removeNode "b"]).any
      (fun parts => decide (.edge "kept" ∈ parts)) = true := by decide +kernel
  rw [hparts, Option.any_some, decide_eq_true_iff] at hkept
  have hget : ((fork "b").edges.get? "kept").map (fun e => (e.source, e.target)) = some ("a", "c") := by
    decide +kernel
  obtain ⟨e, he, hnodes⟩ := Option.map_eq_some_iff.1 hget
  obtain ⟨hsource, htarget⟩ := (hedges "kept" hkept).2 e (.inl he)
  rw [(Prod.mk.inj hnodes).1] at hsource
  rw [(Prod.mk.inj hnodes).2] at htarget
  exact ⟨hends.1, hends.2, hdiff, parts, hparts, hkept, hsource, htarget⟩

end Graph

end Patchbay
