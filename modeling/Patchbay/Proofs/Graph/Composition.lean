import Patchbay.Proofs.Aspect.Schema
import Patchbay.Proofs.Graph.Shape
import Patchbay.Proofs.Graph.Shuffling

/-! What the instances of one aspect come to on a wire, and when their order makes no difference to it. The identity of a
shim is told from its parameters as they are written, so that the instances must come to the same to the letter. -/

namespace Patchbay

/-- Of each aspect that stands on the wire more than once, the order of the instances does not matter. -/
def Wire.Orderless (w : Wire) (r : AspectRegistry) : Prop :=
  ∀ aspect m, r.get? aspect = some m → 1 < (w.declared aspect).length → ∃ s, m.Orderless (w.declared aspect) s

/-! ## Shims -/

namespace Manifest

variable {m : Manifest} {naming : Naming} {w w' : Wire} {lattice : Option LatticeName} {aspect : AspectId}

theorem Orderless.perm {instances instances' : List AspectInstance} {s : LatticeSpec} (h : m.Orderless instances s)
    (hp : instances'.Perm instances) : m.Orderless instances' s where
  plain := h.plain
  compose_eq := h.compose_eq
  reads a ha := h.reads a (hp.mem_iff.1 ha)
  unambiguous := by
    rintro p q ⟨a, ha, hp'⟩ ⟨a', ha', hq⟩
    exact h.unambiguous p q ⟨a, hp.mem_iff.1 ha, hp'⟩ ⟨a', hp.mem_iff.1 ha', hq⟩

theorem map_combine? {group group' : List (AspectInstance × Nat)}
    (hp : (group'.map (·.1)).Perm (group.map (·.1))) (h : 1 < group.length → ∃ s, m.Orderless (group.map (·.1)) s) :
    (m.combine? group').map (·.1) = (m.combine? group).map (·.1) := by
  have hlength : group'.length = group.length := by simpa using hp.length_eq
  match group, group', hlength with
  | [], [], _ => rfl
  | [x], [x'], _ =>
    have hx : x'.1 = x.1 := List.singleton_perm_singleton.1 hp
    simp [combine?, hx]
  | x :: y :: rest, x' :: y' :: rest', _ =>
    obtain ⟨s, hs⟩ := h (by simp)
    simpa only [combine?, Option.map_map, Function.comp_def] using hs.map_compose? hp.symm

/-- The shim of an aspect has the same identity whichever way the wire is ordered. -/
theorem map_id_shimOn? (h : w.Shuffles w') (ho : 1 < (w.declared aspect).length → ∃ s, m.Orderless (w.declared aspect) s) :
    (m.shimOn? naming w' lattice aspect).map (·.id) = (m.shimOn? naming w lattice aspect).map (·.id) := by
  have hcombine : (m.combine? (w'.instancesOf aspect)).map (·.1) = (m.combine? (w.instancesOf aspect)).map (·.1) := by
    have hlength : (w.declared aspect).length = (w.instancesOf aspect).length := by
      rw [← w.map_instancesOf, List.length_map]
    refine map_combine? ?_ fun hlt => ?_
    · rw [w'.map_instancesOf, w.map_instancesOf]
      exact h.perm_declared aspect
    · rw [w.map_instancesOf]
      exact ho (hlength ▸ hlt)
  unfold shimOn?
  split
  · rfl
  · simpa only [Option.map_map, Function.comp_def, h.id_eq] using
      congrArg (Option.map fun params => naming.shimNode w.id aspect params) hcombine

end Manifest

/-! ## Strands -/

theorem Wire.Orderless.ofWire {r : AspectRegistry} {naming : Naming} {w w' : Wire} (ho : w.Orderless r)
    (h : w.Shuffles w') {lattice : Option LatticeName} {source target : NodeId} {s : Strand}
    (hs : Strand.ofWire r naming w lattice source target = .ok s) :
    ∃ s', Strand.ofWire r naming w' lattice source target = .ok s' ∧
      s'.shims.map (·.id) = s.shims.map (·.id) ∧ s'.edges = s.edges := by
  obtain ⟨aspects, haspects, hs⟩ := ok_of_bind hs
  cases hs
  refine ⟨_, bind_eq_ok.2 ⟨aspects, h.aspectsOn haspects, rfl⟩, ?_⟩
  have hids : (aspects.filterMap fun x => x.2.shimOn? naming w' lattice x.1).map (·.id) =
      (aspects.filterMap fun x => x.2.shimOn? naming w lattice x.1).map (·.id) := by
    rw [List.map_filterMap, List.map_filterMap]
    refine List.filterMap_congr fun x hx => Manifest.map_id_shimOn? h ?_
    exact ho x.1 x.2 (AspectRegistry.get?_of_aspectsOn haspects x hx)
  exact ⟨hids, by rw [hids, h.id_eq, h.source_eq, h.target_eq]⟩

/-! ## Boards -/

namespace Board

variable {b b' : Board} {r : AspectRegistry} {naming : Naming} {g g' : Graph} {w w' : Wire} {s : Strand}

theorem strandOf?_shuffled {gadgets : Graph} (h : w.Shuffles w') (ho : w.Orderless r)
    (hs : b.strandOf? r naming gadgets w = .ok (some s)) :
    ∃ s', b.strandOf? r naming gadgets w' = .ok (some s') ∧
      s'.shims.map (·.id) = s.shims.map (·.id) ∧ s'.edges = s.edges := by
  unfold strandOf? at hs ⊢
  rw [h.source_eq, h.target_eq]
  split at hs
  · obtain ⟨s₁, hs₁, hs⟩ := ok_of_bind hs
    cases hs
    obtain ⟨s', hs', hsame⟩ := ho.ofWire h (ok_of_mapError hs₁)
    exact ⟨s', bind_eq_ok.2 ⟨s', mapError_eq_ok.2 hs', rfl⟩, hsame⟩
  · cases hs

namespace Shuffles

theorem orderless (h : b.Shuffles b') (ho : ∀ w ∈ b.wires, w.Orderless r) : ∀ w ∈ b'.wires, w.Orderless r := by
  intro w' hw' aspect m hm hlt
  obtain ⟨w, hw, hr⟩ := h.symm.exists_wire hw'
  have hperm := hr.perm_declared aspect
  obtain ⟨s, hs⟩ := ho w hw aspect m hm (hperm.length_eq ▸ hlt)
  exact ⟨s, hs.perm hperm.symm⟩

theorem strung (h : b.Shuffles b') (ho : ∀ w ∈ b.wires, w.Orderless r) (hs : b.Strung r naming w s) :
    ∃ w' s', b'.Strung r naming w' s' ∧ s'.shims.map (·.id) = s.shims.map (·.id) ∧ s'.edges = s.edges := by
  obtain ⟨hw, nodes, hnodes, hs⟩ := hs
  obtain ⟨w', hw', hr⟩ := h.exists_wire hw
  obtain ⟨s', hs', hsame⟩ := strandOf?_shuffled hr (ho w hw) hs
  obtain ⟨ws, ws', -, -, rfl⟩ := h
  exact ⟨w', s', ⟨hw', nodes, hnodes, hs'⟩, hsame⟩

theorem contains_nodes (h : b.Shuffles b') (ho : ∀ w ∈ b.wires, w.Orderless r) (hg : b.realize r naming = .ok g)
    (hg' : b'.realize r naming = .ok g') {id : NodeId} (hid : g.nodes.contains id = true) :
    g'.nodes.contains id = true := by
  rw [contains_nodes_iff hg']
  rcases (contains_nodes_iff hg).1 hid with ⟨nodes, hnodes, hn⟩ | ⟨w, s, hs, hn⟩
  · exact .inl ⟨nodes, h.gadgetNodes_eq.trans hnodes, hn⟩
  · obtain ⟨w', s', hs', hshims, -⟩ := h.strung ho hs
    exact .inr ⟨w', s', hs', hshims ▸ hn⟩

theorem contains_edges (h : b.Shuffles b') (ho : ∀ w ∈ b.wires, w.Orderless r) (hg : b.realize r naming = .ok g)
    (hg' : b'.realize r naming = .ok g') {k : EdgeId} (hk : g.edges.contains k = true) :
    g'.edges.contains k = true := by
  obtain ⟨w, s, hs, he⟩ := (contains_edges_iff hg).1 hk
  obtain ⟨w', s', hs', -, hedges⟩ := h.strung ho hs
  exact (contains_edges_iff hg').2 ⟨w', s', hs', hedges ▸ he⟩

end Shuffles

/-- Where each aspect that stands on a wire more than once has instances of which the order does not matter, the aspects
of a wire may be declared in any order whatsoever: a board fails to be realized in every order, or has nodes and edges of
the same identities in every order. -/
theorem realize_shuffled (h : b.Shuffles b') (ho : ∀ w ∈ b.wires, w.Orderless r) :
    (∃ e e', b.realize r naming = .error e ∧ b'.realize r naming = .error e') ∨
      ∃ g g', b.realize r naming = .ok g ∧ b'.realize r naming = .ok g' ∧
        g.nodes.keys = g'.nodes.keys ∧ g.edges.keys = g'.edges.keys := by
  rcases h.realize_cases r naming with hfail | ⟨g, g', hg, hg'⟩
  · exact .inl hfail
  have ho' := h.orderless ho
  refine .inr ⟨g, g', hg, hg', Dict.keys_eq_iff.2 fun id => ?_, Dict.keys_eq_iff.2 fun k => ?_⟩
  · exact Bool.eq_iff_iff.2 ⟨h.contains_nodes ho hg hg', h.symm.contains_nodes ho' hg' hg⟩
  · exact Bool.eq_iff_iff.2 ⟨h.contains_edges ho hg hg', h.symm.contains_edges ho' hg' hg⟩

/-! ## Rates on a wire -/

/-- A board with one wire, which lands. -/
def ratedBoard (aspects : List AspectInstance) : Board :=
  { spannedBoard with wires := [{ id := "v", source := .ofGadget "g" "out", target := .ofSlot "t" "in", aspects }] }

theorem shuffles_ratedBoard {aspects aspects' : List AspectInstance} (hp : aspects'.Perm aspects) :
    (ratedBoard aspects).Shuffles (ratedBoard aspects') :=
  ⟨_, _, .refl _, .cons ⟨aspects', hp, rfl⟩ .nil, rfl⟩

def rated (members : List (String × Json)) : AspectInstance := { aspect := "rate-limit", params := .mkObj members }

/-- Two rates, what is no rate, and aspects that stand on the wire once. -/
def severalRates : List AspectInstance := [rated [("rps", .int 5), ("burst", .int 2)], { aspect := "tap" },
  rated [("rps", .str "fast")], { aspect := "audit" }, rated [("rps", .int 3)]]

theorem orderless_severalRates : Manifest.rateLimit.Orderless
    [rated [("rps", .int 5), ("burst", .int 2)], rated [("rps", .str "fast")], rated [("rps", .int 3)]]
    Manifest.rateSpec := by
  refine Manifest.orderless_rateLimit ?_ (Lattice.unambiguous_int.mono ?_)
  · rw [List.forall_mem_cons, List.forall_mem_cons, List.forall_mem_singleton]
    refine ⟨.mkObj ?_, .mkObj ?_, .mkObj ?_⟩
    · rw [List.forall_mem_cons, List.forall_mem_singleton]
      exact ⟨.int (by decide), .int (by decide)⟩
    · rw [List.forall_mem_singleton]
      exact .str "fast"
    · rw [List.forall_mem_singleton]
      exact .int (by decide)
  · rintro p ⟨a, ha, hvalid, members, k, he, hp⟩
    have hmem {l : List (String × Json)} (hl : Json.mkObj l = .obj members) : (k, p) ∈ l := by
      cases hl
      exact Entries.mem_of_mem_ofList (Entries.mem_of_find? hp)
    simp only [List.mem_cons, List.not_mem_nil, or_false] at ha
    rcases ha with rfl | rfl | rfl
    · have hp := hmem he
      simp only [List.mem_cons, List.not_mem_nil, or_false, Prod.mk.injEq] at hp
      rcases hp with ⟨-, rfl⟩ | ⟨-, rfl⟩
      · exact ⟨5, by decide, rfl⟩
      · exact ⟨2, by decide, rfl⟩
    · cases hvalid
    · obtain ⟨-, rfl⟩ : k = "rps" ∧ p = .int 3 := by simpa using hmem he
      exact ⟨3, by decide, rfl⟩

theorem realize_shuffled_rates : ∃ g g', (ratedBoard severalRates).realize .builtin .standard = .ok g ∧
    (ratedBoard severalRates.reverse).realize .builtin .standard = .ok g' ∧
      g.nodes.keys = g'.nodes.keys ∧ g.edges.keys = g'.edges.keys := by
  have ho : ∀ w ∈ (ratedBoard severalRates).wires, w.Orderless .builtin := by
    intro w hw aspect m hm hlt
    obtain rfl := List.mem_singleton.1 hw
    by_cases hrate : "rate-limit" = aspect
    · subst hrate
      obtain rfl : Manifest.rateLimit = m := Option.some.inj hm
      exact ⟨Manifest.rateSpec, orderless_severalRates⟩
    by_cases htap : "tap" = aspect
    · subst htap
      exact absurd hlt (by decide)
    by_cases haudit : "audit" = aspect
    · subst haudit
      exact absurd hlt (by decide)
    · simp [Wire.declared, severalRates, rated, hrate, htap, haudit] at hlt
  have hfits : ∀ w ∈ (ratedBoard severalRates).wires, w.Fits .builtin := by decide +kernel
  refine (realize_shuffled (shuffles_ratedBoard (List.reverse_perm severalRates)) ho).resolve_left ?_
  rintro ⟨e, _, he, -⟩
  obtain ⟨g, hg⟩ : ∃ g, (ratedBoard severalRates).realize .builtin .standard = .ok g :=
    (exists_realize (by decide +kernel)).2 fun w hw _ => hfits w hw
  cases hg.symm.trans he

/-- Five, written as an integer and as a double. Of the two rates the one that is declared first stays as it is written,
so that the shim has another identity in the other order. -/
theorem writing_tells_shims_apart :
    let written := [rated [("rps", .int 5)], rated [("rps", Json.ofDouble? (Double.ofInt? 5))]]
    Manifest.rateLimit.compose = some Manifest.rateSpec.toLattice ∧ Manifest.rateSpec.Plain ∧
      (ratedBoard written).Shuffles (ratedBoard written.reverse) ∧
        ∃ g g', (ratedBoard written).realize .builtin .standard = .ok g ∧
          (ratedBoard written.reverse).realize .builtin .standard = .ok g' ∧ g.nodes.keys ≠ g'.nodes.keys := by
  intro written
  have hgraphs : ((ratedBoard written).realize .builtin .standard).toOption.any (fun g =>
      ((ratedBoard written.reverse).realize .builtin .standard).toOption.any fun g' => g.nodes.keys ≠ g'.nodes.keys) =
        true := by decide +kernel
  obtain ⟨g, hg, hrest⟩ := (Option.any_eq_true ..).1 hgraphs
  obtain ⟨g', hg', hne⟩ := (Option.any_eq_true ..).1 hrest
  exact ⟨rfl, Manifest.plain_rateSpec, shuffles_ratedBoard (List.reverse_perm written), g, g',
    toOption_eq_some.1 hg, toOption_eq_some.1 hg', of_decide_eq_true hne⟩

end Board

end Patchbay
