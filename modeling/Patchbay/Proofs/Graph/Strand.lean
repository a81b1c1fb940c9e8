import Patchbay.Proofs.Aspect.Composition
import Patchbay.Proofs.Aspect.Order
import Patchbay.Proofs.Graph.Chain
import Patchbay.Proofs.Graph.Deferral

/-! What a strand is made of. Its shims stand for the aspects of the wire that have an instance to offer, in canonical
order, and its edges lead from pin to pin over them. -/

namespace Patchbay

/-! ## Instances -/

/-- The instances of an aspect on a wire, in the order declared. -/
def Wire.declared (w : Wire) (aspect : AspectId) : List AspectInstance := w.aspects.filter fun a => a.aspect == aspect

theorem Wire.map_instancesOf (w : Wire) (aspect : AspectId) : (w.instancesOf aspect).map (·.1) = w.declared aspect := by
  have hzip := List.filter_map (p := fun a : AspectInstance => a.aspect == aspect) (f := fun x => x.1)
    (l := w.aspects.zipIdx)
  rw [List.zipIdx_map_fst] at hzip
  exact hzip.symm

theorem Wire.mem_instancesOf {w : Wire} {aspect : AspectId} {x : AspectInstance × Nat} :
    x ∈ w.instancesOf aspect ↔ w.aspects[x.2]? = some x.1 ∧ x.1.aspect = aspect := by
  rw [instancesOf, List.mem_filter, List.mem_zipIdx_iff_getElem?, beq_iff_eq]

namespace Manifest

variable {m : Manifest}

/-- Some of the instances have something to offer: one that is alone is taken as it is, and of several it takes one that
the schema and the lattice admit. -/
def Contributes (m : Manifest) (instances : List AspectInstance) : Prop :=
  (∃ a, instances = [a]) ∨ ∃ a ∈ instances, ∃ params, m.admitInstance .null a.params = .ok params

theorem exists_combine? {group : List (AspectInstance × Nat)} :
    (∃ x, m.combine? group = some x) ↔ m.Contributes (group.map (·.1)) := by
  unfold combine?
  split
  · next x => exact ⟨fun _ => .inl ⟨x.1, rfl⟩, fun _ => ⟨_, rfl⟩⟩
  · next hno =>
    have hnot : ¬∃ a, group.map (·.1) = [a] := by
      rintro ⟨a, ha⟩
      obtain ⟨x, rfl, -⟩ := List.map_eq_singleton_iff.1 ha
      exact hno x rfl
    rw [Contributes, or_iff_right hnot, ← exists_compose?]
    simp [Option.map_eq_some_iff]

theorem contributors_of_combine? {group contributors : List (AspectInstance × Nat)} {params : Json}
    (h : m.combine? group = some (params, contributors)) : contributors ≠ [] ∧ ∀ x ∈ contributors, x ∈ group := by
  unfold combine? at h
  split at h
  · cases h
    exact ⟨List.cons_ne_nil _ _, fun x hx => hx⟩
  · obtain ⟨c, hc, he⟩ := Option.map_eq_some_iff.1 h
    cases he
    obtain ⟨hne, hlt⟩ := contributors_of_compose? hc
    constructor
    · obtain ⟨i, hi⟩ := List.exists_mem_of_ne_nil _ hne
      have hlen : i < group.length := by simpa using hlt i hi
      exact List.ne_nil_of_mem (List.mem_filterMap.2 ⟨i, hi, List.getElem?_eq_getElem hlen⟩)
    · intro x hx
      obtain ⟨i, -, hi⟩ := List.mem_filterMap.1 hx
      exact List.mem_of_getElem? hi

end Manifest

/-! ## Shims -/

/-- A node stands for an aspect on a wire: it lets values in and out, is made as the aspect says, and stems from
instances of the aspect on that wire. -/
structure Node.ShimOf (n : Node) (w : Wire) (aspect : AspectId) (m : Manifest) : Prop where
  kind_eq : n.kind = .shim
  wire_eq : n.wire = some w.id
  template_eq : m.shim? = some n.template
  input : n.direction? "in" = some .input
  output : n.direction? "out" = some .output
  stems : n.origins ≠ []
  origins : ∀ x ∈ n.origins, ∃ i a, w.aspects[i]? = some a ∧ a.aspect = aspect ∧ x = .aspect aspect w.id i a.params

theorem Node.ShimOf.aspect_eq {n : Node} {w w' : Wire} {aspect aspect' : AspectId} {m m' : Manifest}
    (h : n.ShimOf w aspect m) (h' : n.ShimOf w' aspect' m') : aspect = aspect' := by
  obtain ⟨x, hx⟩ := List.exists_mem_of_ne_nil _ h.stems
  obtain ⟨_, _, -, -, he⟩ := h.origins x hx
  obtain ⟨_, _, -, -, he'⟩ := h'.origins x hx
  exact (NodeOrigin.aspect.inj (he.symm.trans he')).1

namespace Manifest

variable {m : Manifest} {naming : Naming} {w : Wire} {lattice : Option LatticeName} {aspect : AspectId} {n : Node}

theorem shimOf_of_shimOn? (h : m.shimOn? naming w lattice aspect = some n) :
    n.ShimOf w aspect m ∧ n.id = naming.shimNode w.id aspect n.params := by
  unfold shimOn? at h
  split at h
  · cases h
  next joinPoint template hk =>
  obtain ⟨⟨params, contributors⟩, hc, rfl⟩ := Option.map_eq_some_iff.1 h
  obtain ⟨hne, hgroup⟩ := contributors_of_combine? hc
  refine ⟨{
    kind_eq := rfl
    wire_eq := rfl
    template_eq := by rw [shim?, hk]
    input := congrArg (Option.map PinSpec.direction) (get?_shimPins_in lattice)
    output := congrArg (Option.map PinSpec.direction) (get?_shimPins_out lattice)
    stems := by simpa using hne
    origins := fun x hx => ?_ }, rfl⟩
  obtain ⟨y, hy, rfl⟩ := List.mem_map.1 hx
  obtain ⟨hat, haspect⟩ := Wire.mem_instancesOf.1 (hgroup y hy)
  exact ⟨y.2, y.1, hat, haspect, rfl⟩

/-- An aspect of the data plane has a shim where one of its instances contributes. -/
theorem exists_shimOn? : (∃ n, m.shimOn? naming w lattice aspect = some n) ↔
    m.isControlPlane = false ∧ m.Contributes (w.declared aspect) := by
  rw [← Wire.map_instancesOf, ← exists_combine?, shimOn?, isControlPlane]
  split <;> simp [Option.map_eq_some_iff]

end Manifest

namespace AspectRegistry

variable {r : AspectRegistry} {w : Wire} {aspects : List (AspectId × Manifest)}

theorem filterMap_get?_manifests (manifests : Dict Manifest) {ids : List AspectId}
    (h : ∀ id ∈ ids, id ∈ manifests.keys) :
    (ids.filterMap fun id => (manifests.get? id).map fun m => (id, m)).map (·.1) = ids := by
  induction ids with
  | nil => rfl
  | cons id rest ih =>
    obtain ⟨m, hm⟩ := Dict.contains_iff.1 (Dict.mem_keys.1 (h id List.mem_cons_self))
    rw [List.filterMap_cons_some (by rw [hm, Option.map_some]), List.map_cons,
      ih fun id' hid' => h id' (List.mem_cons_of_mem id hid')]

/-- The aspects on a wire are those of its instances, each once and in canonical order. -/
theorem order_of_aspectsOn (h : r.aspectsOn w = .ok aspects) :
    (aspects.map (·.1)).Pairwise r.Before ∧ (aspects.map (·.1)).Nodup ∧
      ∀ aspect, aspect ∈ aspects.map (·.1) ↔ ∃ a ∈ w.aspects, a.aspect = aspect := by
  have hget := get?_of_aspectsOn h
  obtain ⟨manifests, hmanifests, h⟩ := ok_of_bind h
  obtain ⟨_, -, h⟩ := ok_of_bind h
  cases h
  have hperm := r.perm_sortIds manifests.keys
  have hids := filterMap_get?_manifests manifests fun id hid => hperm.mem_iff.1 hid
  have hnodup : (r.sortIds manifests.keys).Nodup := hperm.nodup_iff.2 manifests.nodup_keys
  have hof {id : AspectId} (hid : id ∈ r.sortIds manifests.keys) : ∃ m, r.get? id = some m := by
    rw [← hids] at hid
    obtain ⟨x, hx, rfl⟩ := List.mem_map.1 hid
    exact ⟨x.2, hget x hx⟩
  rw [hids]
  refine ⟨?_, hnodup, fun aspect => ?_⟩
  · refine ((r.pairwise_sortIds _).and hnodup).imp_of_mem fun hid hid' hle => ?_
    obtain ⟨m, hm⟩ := hof hid
    obtain ⟨m', hm'⟩ := hof hid'
    exact r.before_of_le hm hm' hle.1 hle.2
  · rw [hperm.mem_iff, mem_keys_of_manifestsOn hmanifests]

end AspectRegistry

theorem forall₂_filterMap {α β : Type} {f : α → Option β} {R : α → β → Prop} {l : List α}
    (h : ∀ x ∈ l, ∀ y, f x = some y → R x y) :
    List.Forall₂ R (l.filter fun x => (f x).isSome) (l.filterMap f) := by
  induction l with
  | nil => exact .nil
  | cons x rest ih =>
    obtain ⟨hhead, htail⟩ := List.forall_mem_cons.1 h
    cases hx : f x with
    | none => simpa [List.filter_cons, List.filterMap_cons, hx] using ih htail
    | some y => simpa [List.filter_cons, List.filterMap_cons, hx] using ⟨hhead y hx, ih htail⟩

namespace Strand

variable {r : AspectRegistry} {naming : Naming} {w : Wire} {lattice : Option LatticeName} {source target : NodeId}
  {s : Strand}

/-- The shims of a strand stand for the aspects of the data plane that have an instance to offer, in canonical order. -/
theorem shims_of_ofWire (h : ofWire r naming w lattice source target = .ok s) :
    ∃ ids : List AspectId, ids.Pairwise r.Before ∧ ids.Nodup ∧
      (∀ aspect, aspect ∈ ids ↔ (∃ a ∈ w.aspects, a.aspect = aspect) ∧
        ∃ m, r.get? aspect = some m ∧ m.isControlPlane = false ∧ m.Contributes (w.declared aspect)) ∧
      List.Forall₂ (fun aspect n => ∃ m, r.get? aspect = some m ∧ m.shimOn? naming w lattice aspect = some n)
        ids s.shims := by
  obtain ⟨aspects, haspects, h⟩ := ok_of_bind h
  cases h
  obtain ⟨hbefore, hnodup, hmem⟩ := AspectRegistry.order_of_aspectsOn haspects
  have hget := AspectRegistry.get?_of_aspectsOn haspects
  let shim (x : AspectId × Manifest) : Option Node := x.2.shimOn? naming w lattice x.1
  have hsub : ((aspects.filter fun x => (shim x).isSome).map (·.1)).Sublist (aspects.map (·.1)) :=
    List.filter_sublist.map _
  refine ⟨(aspects.filter fun x => (shim x).isSome).map (·.1), hbefore.sublist hsub, hnodup.sublist hsub,
    fun aspect => ?_, ?_⟩
  · rw [List.mem_map]
    constructor
    · rintro ⟨x, hx, rfl⟩
      obtain ⟨hx, hsome⟩ := List.mem_filter.1 hx
      obtain ⟨hcontrol, hcontributes⟩ := Manifest.exists_shimOn?.1 (Option.isSome_iff_exists.1 hsome)
      exact ⟨(hmem x.1).1 (List.mem_map_of_mem hx), x.2, hget x hx, hcontrol, hcontributes⟩
    · rintro ⟨hdeclared, m, hm, hoffers⟩
      obtain ⟨x, hx, rfl⟩ := List.mem_map.1 ((hmem aspect).2 hdeclared)
      obtain rfl : x.2 = m := Option.some.inj ((hget x hx).symm.trans hm)
      exact ⟨x, List.mem_filter.2 ⟨hx, Option.isSome_iff_exists.2 (Manifest.exists_shimOn?.2 hoffers)⟩, rfl⟩
  · rw [List.forall₂_map_left_iff]
    exact forall₂_filterMap fun x hx n hn => ⟨x.2, hget x hx, hn⟩

theorem shimOn?_of_mem {n : Node} (h : ofWire r naming w lattice source target = .ok s) (hn : n ∈ s.shims) :
    ∃ aspect m, r.get? aspect = some m ∧ m.shimOn? naming w lattice aspect = some n := by
  obtain ⟨aspects, haspects, h⟩ := ok_of_bind h
  cases h
  obtain ⟨x, hx, hon⟩ := List.mem_filterMap.1 hn
  exact ⟨x.1, x.2, AspectRegistry.get?_of_aspectsOn haspects x hx, hon⟩

theorem shim_of_mem {n : Node} (h : ofWire r naming w lattice source target = .ok s) (hn : n ∈ s.shims) :
    ∃ aspect m, n.ShimOf w aspect m ∧ n.id = naming.shimNode w.id aspect n.params := by
  obtain ⟨aspect, m, -, hon⟩ := shimOn?_of_mem h hn
  exact ⟨aspect, m, Manifest.shimOf_of_shimOn? hon⟩

/-- No two shims of a strand have one identity, for they stand for different aspects. -/
theorem nodup_shims_of_ofWire (hn : naming.Faithful) (h : ofWire r naming w lattice source target = .ok s) :
    (s.shims.map (·.id)).Nodup := by
  obtain ⟨aspects, haspects, h⟩ := ok_of_bind h
  cases h
  have hnodup := List.pairwise_map.1 (AspectRegistry.order_of_aspectsOn haspects).2.1
  refine List.pairwise_map.2 (List.pairwise_filterMap.2 (hnodup.imp ?_))
  intro x x' hne n hx n' hx' hid
  have hparts := hn.parts_eq ((Manifest.shimOf_of_shimOn? hx).2.symm.trans
    (hid.trans (Manifest.shimOf_of_shimOn? hx').2))
  simp only [List.cons.injEq] at hparts
  exact hne hparts.2.2.1

theorem wire_of_mem_edgesAlong {wire : WireId} {tags : Names} {a b : NodePin} {ns : List NodeId} {e : Edge}
    (h : e ∈ edgesAlong naming wire tags a ns b) : e.wire = wire ∧ e.tags = tags := by
  induction ns generalizing a with
  | nil =>
    obtain rfl := List.mem_singleton.1 h
    exact ⟨rfl, rfl⟩
  | cons n rest ih =>
    rcases List.mem_cons.1 h with rfl | h
    · exact ⟨rfl, rfl⟩
    · exact ih h

/-- The edges of a strand make up a chain over its shims, and each has the tags of the aspects of the control plane. -/
theorem edges_of_ofWire (h : ofWire r naming w lattice source target = .ok s) :
    Chained ⟨source, w.source.pin⟩ (s.shims.map (·.id)) ⟨target, w.target.pin⟩ s.edges ∧
      (∀ e ∈ s.edges, e.wire = w.id ∧ ∀ tag, e.tags.contains tag = true ↔
        ∃ a ∈ w.aspects, ∃ m, r.get? a.aspect = some m ∧ m.isControlPlane = true ∧ tag = Manifest.tag a.aspect) ∧
      ∀ e ∈ s.edges, ∀ e' ∈ s.edges, e.tags = e'.tags := by
  obtain ⟨aspects, haspects, h⟩ := ok_of_bind h
  cases h
  obtain ⟨-, -, hmem⟩ := AspectRegistry.order_of_aspectsOn haspects
  have hget := AspectRegistry.get?_of_aspectsOn haspects
  refine ⟨chained_edgesAlong .., fun e he => ?_, fun e he e' he' =>
    (wire_of_mem_edgesAlong he).2.trans (wire_of_mem_edgesAlong he').2.symm⟩
  obtain ⟨hwire, htags⟩ := wire_of_mem_edgesAlong he
  refine ⟨hwire, fun tag => ?_⟩
  rw [htags, Names.contains_ofNames, List.mem_map]
  constructor
  · rintro ⟨x, hx, rfl⟩
    obtain ⟨hx, hcontrol⟩ := List.mem_filter.1 hx
    obtain ⟨a, ha, he⟩ := (hmem x.1).1 (List.mem_map_of_mem hx)
    exact ⟨a, ha, x.2, he ▸ hget x hx, hcontrol, by rw [he]⟩
  · rintro ⟨a, ha, m, hm, hcontrol, rfl⟩
    obtain ⟨x, hx, he⟩ := List.mem_map.1 ((hmem a.aspect).2 ⟨a, ha, rfl⟩)
    obtain rfl : x.2 = m := Option.some.inj ((hget x hx).symm.trans (he ▸ hm))
    exact ⟨x, List.mem_filter.2 ⟨hx, hcontrol⟩, by rw [he]⟩

end Strand

end Patchbay
