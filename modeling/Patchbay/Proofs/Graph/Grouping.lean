import Patchbay.Proofs.Graph.Strand

/-! Two ways to put the instances on a wire in order: all of them by a stable sort, or aspect by aspect. Ranks tell
aspects apart, so that a sorted list keeps the instances of one aspect together, and stability keeps these in the order
declared. -/

namespace Patchbay

/-! ## Sorted lists -/

section

variable {α : Type} {le : α → α → Bool}

/-- A stable sort leaves the elements of a class in place among themselves. -/
theorem filter_mergeSort (htrans : ∀ a b c, le a b = true → le b c = true → le a c = true)
    (htotal : ∀ a b, (le a b || le b a) = true) {p : α → Bool}
    (hp : ∀ a b, p a = true → p b = true → le a b = true) (l : List α) :
    (l.mergeSort le).filter p = l.filter p := by
  have hsorted : (l.filter p).Pairwise fun a b => le a b = true :=
    List.pairwise_of_forall_mem_list fun a ha b hb => hp a b (List.mem_filter.1 ha).2 (List.mem_filter.1 hb).2
  have hsub : ((l.filter p).filter p).Sublist ((l.mergeSort le).filter p) :=
    (List.sublist_mergeSort htrans htotal hsorted List.filter_sublist).filter p
  simp only [List.filter_filter, Bool.and_self] at hsub
  exact (hsub.eq_of_length ((List.mergeSort_perm l le).filter p).length_eq.symm).symm

/-- Where a class comes first, a list is the class and then the rest. -/
theorem eq_filter_append {p : α → Bool} {l : List α} (h : l.Pairwise fun a b => p b = true → p a = true) :
    l = l.filter p ++ l.filter (fun a => !p a) := by
  induction l with
  | nil => rfl
  | cons a rest ih =>
    obtain ⟨hhead, htail⟩ := List.pairwise_cons.1 h
    cases ha : p a with
    | true => simpa [ha] using ih htail
    | false =>
      have hnone : ∀ b ∈ rest, p b = false := fun b hb => Bool.eq_false_iff.2 fun hpb => by
        rw [hhead b hb hpb] at ha
        cases ha
      have hempty : rest.filter p = [] := List.filter_eq_nil_iff.2 fun b hb => by simp [hnone b hb]
      have hfull : rest.filter (fun a => !p a) = rest := List.filter_eq_self.2 fun b hb => by simp [hnone b hb]
      simp [ha, hempty, hfull]

end

/-! ## Aspects -/

namespace AspectRank

theorem le_antisymm {a b : AspectRank} (hab : a.le b = true) (hba : b.le a = true) : a.id = b.id := by
  rw [le_iff] at hab hba
  rcases hab with ⟨ha, hb⟩ | ⟨hu, hab⟩
  · simp_all
  · rcases hba with ⟨hb, ha⟩ | ⟨-, hba⟩
    · simp_all
    · rcases hab with hab | ⟨ho, hab⟩
      · rcases hba with hba | ⟨ho, -⟩
        · exact absurd hab (Int.lt_asymm hba)
        · exact absurd ho.symm (Int.ne_of_lt hab)
      · rcases hba with hba | ⟨-, hba⟩
        · exact absurd ho.symm (Int.ne_of_lt hba)
        · exact String.le_antisymm hab hba

end AspectRank

namespace AspectRegistry

variable (r : AspectRegistry)

@[simp]
theorem rank_id (id : AspectId) : (r.rank id).id = id := by
  unfold rank
  split <;> rfl

theorem eq_of_le {id id' : AspectId} (h : (r.rank id).le (r.rank id') = true)
    (h' : (r.rank id').le (r.rank id) = true) : id = id' := by
  simpa using AspectRank.le_antisymm h h'

theorem sortIds_perm {ids ids' : List AspectId} (h : ids.Perm ids') : r.sortIds ids = r.sortIds ids' := by
  have hperm : (r.sortIds ids).Perm (r.sortIds ids') := (r.perm_sortIds ids).trans (h.trans (r.perm_sortIds ids').symm)
  exact hperm.eq_of_pairwise (fun _ _ _ _ => r.eq_of_le) (r.pairwise_sortIds ids) (r.pairwise_sortIds ids')

/-! ## Instances -/

/-- The instances of the given aspects, aspect by aspect. -/
def gather (instances : List AspectInstance) (ids : List AspectId) : List AspectInstance :=
  ids.flatMap fun id => instances.filter fun a => a.aspect == id

/-- The instances aspect by aspect, the aspects in canonical order. -/
def groupInstances (instances : List AspectInstance) : List AspectInstance :=
  gather instances (r.sortIds (Names.ofNames (instances.map (·.aspect))).keys)

theorem instance_le_trans (a b c : AspectInstance) (hab : (r.rank a.aspect).le (r.rank b.aspect) = true)
    (hbc : (r.rank b.aspect).le (r.rank c.aspect) = true) : (r.rank a.aspect).le (r.rank c.aspect) = true :=
  AspectRank.le_trans hab hbc

theorem instance_le_total (a b : AspectInstance) :
    ((r.rank a.aspect).le (r.rank b.aspect) || (r.rank b.aspect).le (r.rank a.aspect)) = true :=
  AspectRank.le_total ..

theorem pairwise_sortInstances (instances : List AspectInstance) :
    (r.sortInstances instances).Pairwise fun a b => (r.rank a.aspect).le (r.rank b.aspect) = true :=
  List.pairwise_mergeSort r.instance_le_trans r.instance_le_total instances

theorem filter_sortInstances (instances : List AspectInstance) (id : AspectId) :
    ((r.sortInstances instances).filter fun a => a.aspect == id) = instances.filter fun a => a.aspect == id := by
  let le (a b : AspectInstance) : Bool := (r.rank a.aspect).le (r.rank b.aspect)
  have hclass : ∀ a b : AspectInstance, (a.aspect == id) = true → (b.aspect == id) = true → le a b = true := by
    intro a b ha hb
    simpa [le, beq_iff_eq.1 ha, beq_iff_eq.1 hb] using AspectRank.le_total (r.rank id) (r.rank id)
  exact filter_mergeSort r.instance_le_trans r.instance_le_total hclass instances

/-- Instances that stand in the order of their aspects stand aspect by aspect. -/
theorem eq_gather {ids : List AspectId} {instances : List AspectInstance}
    (hids : ids.Pairwise fun id id' => (r.rank id).le (r.rank id') = true) (hnodup : ids.Nodup)
    (h : instances.Pairwise fun a b => (r.rank a.aspect).le (r.rank b.aspect) = true)
    (hmem : ∀ a ∈ instances, a.aspect ∈ ids) : instances = gather instances ids := by
  induction ids generalizing instances with
  | nil =>
    obtain rfl : instances = [] := List.eq_nil_iff_forall_not_mem.2 fun a ha => List.not_mem_nil (hmem a ha)
    rfl
  | cons id rest ih =>
    obtain ⟨hleast, hrest⟩ := List.pairwise_cons.1 hids
    obtain ⟨hfresh, hnodup⟩ := List.nodup_cons.1 hnodup
    let others := instances.filter fun a => !(a.aspect == id)
    have hfirst : instances.Pairwise fun a b => (b.aspect == id) = true → (a.aspect == id) = true := by
      refine h.imp_of_mem fun {a b} ha _ hle hb => beq_iff_eq.2 ?_
      rcases List.mem_cons.1 (hmem a ha) with heq | ha
      · exact heq
      · exact r.eq_of_le (beq_iff_eq.1 hb ▸ hle) (hleast _ ha)
    have hothers : others = gather others rest := ih hrest hnodup (h.filter _) fun a ha => by
      obtain ⟨ha, hne⟩ := List.mem_filter.1 ha
      exact (List.mem_cons.1 (hmem a ha)).resolve_left (by simpa using hne)
    -- leaving out the instances of `id` takes nothing from the aspects that follow
    have hsame : gather others rest = gather instances rest := List.flatMap_congr fun id' hid' => by
      rw [List.filter_filter]
      refine List.filter_congr fun a _ => ?_
      by_cases ha : a.aspect = id'
      · simp [ha, ne_of_mem_of_not_mem hid' hfresh]
      · simp [ha]
    calc instances = instances.filter (fun a => a.aspect == id) ++ others := eq_filter_append hfirst
      _ = instances.filter (fun a => a.aspect == id) ++ gather instances rest := by rw [hothers, hsame]
      _ = gather instances (id :: rest) := rfl

theorem sortInstances_eq_gather {instances : List AspectInstance} {ids : List AspectId} (hnodup : ids.Nodup)
    (hmem : ∀ a ∈ instances, a.aspect ∈ ids) : r.sortInstances instances = gather instances (r.sortIds ids) := by
  have hperm := r.perm_sortIds ids
  have hinstances : (r.sortInstances instances).Perm instances := List.mergeSort_perm ..
  calc r.sortInstances instances = gather (r.sortInstances instances) (r.sortIds ids) :=
        r.eq_gather (r.pairwise_sortIds ids) (hperm.nodup_iff.2 hnodup) (r.pairwise_sortInstances instances)
          fun a ha => hperm.mem_iff.2 (hmem a (hinstances.mem_iff.1 ha))
    _ = gather instances (r.sortIds ids) := by
        simp only [gather, filter_sortInstances]

theorem sortInstances_eq_groupInstances (instances : List AspectInstance) :
    r.sortInstances instances = r.groupInstances instances := by
  refine r.sortInstances_eq_gather (Dict.nodup_keys _) fun a ha => Dict.mem_keys.2 ?_
  exact (Names.contains_ofNames ..).2 (List.mem_map_of_mem ha)

theorem sortInstances_aspects {w : Wire} {aspects : List (AspectId × Manifest)} (h : r.aspectsOn w = .ok aspects) :
    r.sortInstances w.aspects = aspects.flatMap fun x => (w.instancesOf x.1).map (·.1) := by
  obtain ⟨manifests, hmanifests, h⟩ := ok_of_bind h
  obtain ⟨_, -, h⟩ := ok_of_bind h
  cases h
  have hids := filterMap_get?_manifests manifests fun id hid => (r.perm_sortIds manifests.keys).mem_iff.1 hid
  rw [r.sortInstances_eq_gather manifests.nodup_keys fun a ha => (mem_keys_of_manifestsOn hmanifests).2 ⟨a, ha, rfl⟩]
  simp only [Wire.map_instancesOf]
  conv_lhs => rw [← hids]
  rw [gather, List.flatMap_map]
  rfl

/-- The two orders agree. Sorting the instances puts them aspect by aspect, the aspects in canonical order and the
instances of each as declared; on a wire that is lowered this is the order of its shims and what they are made from. The
canonical order of aspects does not depend on how they are given. -/
theorem orders_agree :
    (∀ instances, r.sortInstances instances = r.groupInstances instances) ∧
      (∀ (w : Wire) (aspects : List (AspectId × Manifest)), r.aspectsOn w = .ok aspects →
        r.sortInstances w.aspects = aspects.flatMap fun x => (w.instancesOf x.1).map (·.1)) ∧
      ∀ ids ids' : List AspectId, ids.Perm ids' → r.sortIds ids = r.sortIds ids' :=
  ⟨r.sortInstances_eq_groupInstances, fun _ _ => r.sortInstances_aspects, fun _ _ => r.sortIds_perm⟩

/-- A wire with aspects out of order, one of them twice, and three names of which one is not registered. -/
theorem orders_agree_builtin :
    let w : Wire := {
      source := .ofGadget "g" "out"
      target := .ofSlot "t" "in"
      aspects := [⟨"rate-limit", .mkObj [("rps", .int 5)]⟩, ⟨"tap", .null⟩, ⟨"rate-limit", .mkObj [("rps", .int 3)]⟩] }
    (∃ aspects, builtin.aspectsOn w = .ok aspects ∧
      builtin.sortInstances w.aspects = aspects.flatMap fun x => (w.instancesOf x.1).map (·.1)) ∧
      builtin.sortIds ["ghost", "tap", "audit"] = builtin.sortIds ["audit", "tap", "ghost"] := by
  intro w
  have hfits : w.Fits builtin := by decide +kernel
  obtain ⟨aspects, haspects⟩ := exists_aspectsOn.2 hfits
  have hperm : ["ghost", "tap", "audit"].Perm ["audit", "tap", "ghost"] := List.reverse_perm ["audit", "tap", "ghost"]
  exact ⟨⟨aspects, haspects, (builtin.orders_agree).2.1 w aspects haspects⟩, (builtin.orders_agree).2.2 _ _ hperm⟩

example : (builtin.sortInstances [⟨"ghost", .int 1⟩, ⟨"tap", .int 2⟩, ⟨"audit", .int 3⟩, ⟨"ghost", .int 4⟩,
    ⟨"tap", .int 5⟩]).map (·.params) = [.int 3, .int 2, .int 5, .int 1, .int 4] := by cbv

end AspectRegistry

end Patchbay
