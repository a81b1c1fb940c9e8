import Patchbay.Proofs.Propagation.Depth

/-! Calls in stores without cycles. Every task comes along a route of its own, so that a contact has no more tasks than
there are routes to it. Which of them are dropped is a matter of numbers alone: a contact has the first ones carried to
it, as many as the threshold allows. -/

namespace Patchbay

namespace ContactStore

/-- The contacts along connections that lead away from the source, the last one first. -/
inductive Route (s : ContactStore) (source : ContactId) : List ContactId → Prop
  | single {a} : s.Feeds source a → Route s source [a]
  | extend {a b rest} : Route s source (a :: rest) → s.Feeds a b → Route s source (b :: a :: rest)

/-- The routes that end at a contact. -/
def routes (s : ContactStore) (source id : ContactId) : Set (List ContactId) :=
  {r | s.Route source r ∧ r.head? = some id}

/-- No connections lead from the source to a contact and from there back to it. -/
def Acyclic (s : ContactStore) (source : ContactId) : Prop :=
  ∀ id, s.Reaches source id → ¬Relation.TransGen s.Feeds id id

variable {s : ContactStore} {source : ContactId} {r : List ContactId}

theorem Route.mem_beyond (h : s.Route source r) : ∀ x ∈ r, x ∈ s.beyond source := by
  induction h with
  | single h => exact List.forall_mem_singleton.2 (.single h)
  | extend _ hab ih => exact List.forall_mem_cons.2 ⟨.tail (ih _ List.mem_cons_self) hab, ih⟩

theorem Route.pairwise (h : s.Route source r) : r.Pairwise fun b a => Relation.TransGen s.Feeds a b := by
  induction h with
  | single => exact List.pairwise_singleton ..
  | @extend a b rest _ hab ih =>
    refine List.pairwise_cons.2 ⟨List.forall_mem_cons.2 ⟨.single hab, fun x hx => ?_⟩, ih⟩
    exact .tail ((List.pairwise_cons.1 ih).1 x hx) hab

theorem Route.nodup (ha : s.Acyclic source) (h : s.Route source r) : r.Nodup := by
  refine h.pairwise.imp_of_mem fun {b a} hb _ hab he => ?_
  have hr : s.Reaches source b := (h.mem_beyond b hb).to_reflTransGen
  exact ha b hr (he ▸ hab)

theorem Route.mem_keys (hw : s.Wired) (h : s.Route source r) : ∀ x ∈ r, x ∈ s.contacts.keys := by
  intro x hx
  obtain ⟨a, -, hax⟩ := Relation.TransGen.tail'_iff.1 (h.mem_beyond x hx)
  exact Dict.mem_keys.2 (hw.ends_of_feeds hax).2

/-- A route without cycles passes each contact once at most. -/
theorem Route.length_le (hw : s.Wired) (ha : s.Acyclic source) (h : s.Route source r) :
    r.length ≤ s.contacts.size := by
  have hsub : r ⊆ s.contacts.keys := h.mem_keys hw
  have hle : r.length ≤ s.contacts.keys.length := ((h.nodup ha).subperm hsub).length_le
  rwa [Dict.keys, List.length_map] at hle

theorem Wired.finite_routes (hw : s.Wired) (ha : s.Acyclic source) (id : ContactId) :
    (s.routes source id).Finite := by
  refine (List.finite_toSet (s.contacts.keys.sublists.flatMap List.permutations)).subset fun r hr => ?_
  obtain ⟨l, hperm, hsub⟩ := (hr.1.nodup ha).subperm (hr.1.mem_keys hw)
  exact List.mem_flatMap.2 ⟨l, List.mem_sublists.2 hsub, List.mem_permutations.2 hperm.symm⟩

end ContactStore

namespace Propagation

variable {s : ContactStore} {source : ContactId} {limits : PropagationLimits} {threshold : Nat} {w : Walk} {t : Task}
  {rest : List Task}

/-! ## What is brought, and what is dropped -/

/-- A task that is taken up brings one for each of some contacts that its target feeds. -/
theorem takeUp_brings (hw : s.Wired) (hn : s.SameNetwork w.store) (threshold : Nat) (t : Task) :
    ∃ next, (takeUp threshold w t).queue = w.queue ++ next ∧ (next.map (·.target)).Nodup ∧
      ∀ x ∈ next, s.Feeds t.target x.target ∧ x.depth = t.depth + 1 := by
  have hnetwork := hn.trans (advances_takeUp threshold w t).toSameNetwork
  obtain ⟨next, hnext, hnodup, hbrought⟩ := takeUp_queue threshold w t
  refine ⟨next, hnext, hnodup, fun x hx => ⟨?_, (hbrought x hx).2⟩⟩
  exact hnetwork.feeds_iff.1 ((ContactStore.mem_downstream (hnetwork.wired hw)).1 (hbrought x hx).1)

/-- The tasks of a list that are for one contact. -/
def tasksTo (id : ContactId) (ts : List Task) : List Task := ts.filter fun t => t.target = id

theorem tasksTo_append (id : ContactId) (ts us : List Task) : tasksTo id (ts ++ us) = tasksTo id ts ++ tasksTo id us :=
  List.filter_append ..

theorem tasksTo_cons_self (t : Task) (ts : List Task) : tasksTo t.target (t :: ts) = t :: tasksTo t.target ts :=
  List.filter_cons_of_pos (decide_eq_true rfl)

theorem tasksTo_cons_of_ne {id : ContactId} {t : Task} (h : id ≠ t.target) (ts : List Task) :
    tasksTo id (t :: ts) = tasksTo id ts :=
  List.filter_cons_of_neg fun he => h (of_decide_eq_true he).symm

/-- The contacts that count as cyclic are those with a visit too many. -/
def Walk.Counted (w : Walk) (threshold : Nat) : Prop :=
  ∀ id, w.cyclic.contains id = true ↔ threshold < w.visits.getD id 0

theorem visits_takeUp (threshold : Nat) (w : Walk) (t : Task) (id : ContactId) :
    (takeUp threshold w t).visits.getD id 0 =
      w.visits.getD id 0 + if id = t.target ∧ w.cyclic.contains t.target = false then 1 else 0 := by
  rw [takeUp_eq]
  split
  · next hc => simp [hc]
  · next hc =>
    have hnote := getD_noteVisit w t.target id
    rw [Bool.not_eq_true] at hc
    simp only [hc, and_true]
    split
    · exact hnote
    · rw [visits_carryOut]
      exact hnote

theorem Walk.Counted.takeUp (h : w.Counted threshold) (t : Task) : (takeUp threshold w t).Counted threshold := by
  intro id
  have hid := h id
  have htarget := h t.target
  rw [visits_takeUp, takeUp_eq]
  split
  · next hc => simp [hc, hid]
  next hc =>
  have hc : w.cyclic.contains t.target = false := Bool.eq_false_iff.2 hc
  rw [hc] at htarget
  simp only [hc, and_true]
  by_cases he : id = t.target
  · subst he
    split
    · next hover => simpa [Names.contains_add] using hover
    · next hover => simpa [cyclic_carryOut, Walk.noteVisit, hc] using hover
  · split
    · simp [Names.contains_add, he, hid]
    · simp [cyclic_carryOut, Walk.noteVisit, hid]

/-- A task is carried out as long as its target has had fewer visits than it may have. -/
theorem Walk.Counted.carriedOut_takeUp (h : w.Counted threshold) (t : Task) :
    (Propagation.takeUp threshold w t).carriedOut =
      if w.visits.getD t.target 0 < threshold then t :: w.carriedOut else w.carriedOut := by
  have ht := h t.target
  rw [takeUp_eq]
  split
  · next hc => rw [if_neg (Nat.not_lt.2 (ht.1 hc).le)]
  split
  · next hover =>
    rw [if_neg (Nat.not_lt.2 (Nat.le_of_lt_succ hover))]
    rfl
  · next hunder =>
    rw [if_pos (Nat.lt_of_succ_le (Nat.not_lt.1 hunder)), (carryOut_writes _ t).2]
    rfl

theorem counted_start (s : ContactStore) (source : ContactId) (current : Json) (changed : Bool) (threshold : Nat) :
    (start s source current changed).Counted threshold :=
  fun _ => ⟨nofun, nofun⟩

theorem Walk.Counted.pass (h : w.Counted threshold) (t : Task) (ts : List Task) (id : ContactId) :
    tasksTo id (Propagation.takeUp threshold w t).carriedOut.reverse ++
        (tasksTo id ts).take (threshold - (Propagation.takeUp threshold w t).visits.getD id 0) =
      tasksTo id w.carriedOut.reverse ++ (tasksTo id (t :: ts)).take (threshold - w.visits.getD id 0) ∧
    (threshold < (Propagation.takeUp threshold w t).visits.getD id 0 + (tasksTo id ts).length ↔
      threshold < w.visits.getD id 0 + (tasksTo id (t :: ts)).length) := by
  rw [h.carriedOut_takeUp, visits_takeUp]
  by_cases hid : id = t.target
  · subst hid
    have ht := h t.target
    rw [tasksTo_cons_self, List.length_cons]
    cases hc : w.cyclic.contains t.target with
    | true =>
      -- the visits that the target may have are used up
      have hover : threshold < w.visits.getD t.target 0 := ht.1 hc
      have hnone : threshold - w.visits.getD t.target 0 = 0 := Nat.sub_eq_zero_of_le hover.le
      simp only [Bool.true_eq_false, and_false, if_false, Nat.add_zero, if_neg (Nat.not_lt.2 hover.le), hnone,
        List.take_zero, true_and]
      omega
    | false =>
      rw [hc] at ht
      simp only [and_self, if_true]
      refine ⟨?_, by omega⟩
      split
      · next hunder =>
        have hone : threshold - w.visits.getD t.target 0 = threshold - (w.visits.getD t.target 0 + 1) + 1 := by omega
        rw [hone, List.take_succ_cons, List.reverse_cons, tasksTo_append, tasksTo_cons_self, List.append_assoc]
        rfl
      · next hover =>
        have hnone : threshold - w.visits.getD t.target 0 = 0 := Nat.sub_eq_zero_of_le (Nat.not_lt.1 hover)
        rw [hnone, Nat.sub_add_eq, hnone, Nat.zero_sub, List.take_zero, List.take_zero]
  · have hsame : tasksTo id (if w.visits.getD t.target 0 < threshold then t :: w.carriedOut else w.carriedOut).reverse =
        tasksTo id w.carriedOut.reverse := by
      split
      · rw [List.reverse_cons, tasksTo_append, tasksTo_cons_of_ne hid, tasksTo, tasksTo, List.filter_nil,
          List.append_nil]
      · rfl
    rw [hsame, tasksTo_cons_of_ne hid, if_neg (fun hc => hid hc.1), Nat.add_zero]
    exact ⟨rfl, Iff.rfl⟩

/-- Where no task is found too deep, a contact has the first of its tasks carried to it, as many as it may still be
visited, and it counts as cyclic if that was not all of them. -/
theorem Walk.Counted.walk (h : w.Counted limits.cycleThreshold) (hn : (walk limits w).stats.truncated = false)
    (id : ContactId) :
    tasksTo id (walk limits w).carriedOut.reverse = tasksTo id w.carriedOut.reverse ++
        (tasksTo id (dequeued limits w)).take (limits.cycleThreshold - w.visits.getD id 0) ∧
      ((walk limits w).cyclic.contains id = true ↔
        limits.cycleThreshold < w.visits.getD id 0 + (tasksTo id (dequeued limits w)).length) := by
  induction w using walk.induct limits with
  | case1 w hq =>
    rw [walk_of_nil hq, dequeued_of_nil hq]
    exact ⟨by simp [tasksTo], h id⟩
  | case2 w t rest hq hd =>
    rw [walk_of_cons hq, if_pos hd] at hn
    cases hn
  | case3 w t rest hq hd ih =>
    rw [walk_of_cons hq, if_neg hd] at hn ⊢
    rw [dequeued_of_cons hq, if_neg hd]
    set v : Walk := { w with queue := rest }
    have hv : v.Counted limits.cycleThreshold := h
    obtain ⟨hcarried, hcyclic⟩ := ih (hv.takeUp t) hn
    obtain ⟨hfirst, hover⟩ := hv.pass t (dequeued limits (Propagation.takeUp limits.cycleThreshold v t)) id
    exact ⟨hcarried.trans hfirst, hcyclic.trans hover⟩

/-- Where no contact has more tasks than it may still be visited, all of them are carried out. -/
theorem Walk.Counted.carriedOut_walk (h : w.Counted limits.cycleThreshold)
    (hn : (Propagation.walk limits w).stats.truncated = false)
    (hall : ∀ id, w.visits.getD id 0 + (tasksTo id (dequeued limits w)).length ≤ limits.cycleThreshold) :
    (Propagation.walk limits w).carriedOut.reverse = w.carriedOut.reverse ++ dequeued limits w := by
  induction w using walk.induct limits with
  | case1 w hq => rw [walk_of_nil hq, dequeued_of_nil hq, List.append_nil]
  | case2 w t rest hq hd =>
    rw [walk_of_cons hq, if_pos hd] at hn
    cases hn
  | case3 w t rest hq hd ih =>
    rw [walk_of_cons hq, if_neg hd] at hn ⊢
    rw [dequeued_of_cons hq, if_neg hd] at hall ⊢
    set v : Walk := { w with queue := rest }
    have hv : v.Counted limits.cycleThreshold := h
    have hunder : v.visits.getD t.target 0 < limits.cycleThreshold := by
      have ht := hall t.target
      rw [tasksTo_cons_self, List.length_cons] at ht
      exact Nat.lt_of_lt_of_le (Nat.lt_add_of_pos_right (Nat.succ_pos _)) ht
    have hrest := ih (hv.takeUp t) hn fun id => by
      refine Nat.not_lt.1 fun hlt => Nat.not_lt.2 (hall id) ?_
      exact (hv.pass t _ id).2.1 hlt
    rw [hrest, hv.carriedOut_takeUp, if_pos hunder, List.reverse_cons, List.append_assoc, List.singleton_append]

/-! ## Routes of their own -/

/-- A call under way: each task that it has taken up, and each that waits, has come along a route of its own. -/
structure Routed (s : ContactStore) (source : ContactId) (w : Walk) (seen waiting : List (List ContactId)) : Prop where
  network : s.SameNetwork w.store
  queue : w.queue.map (fun t => (some t.target, t.depth)) = waiting.map fun r => (r.head?, r.length)
  routes : ∀ r ∈ seen ++ waiting, s.Route source r
  nodup : (seen ++ waiting).Nodup
  grown : ∀ a b r, b :: a :: r ∈ seen ++ waiting → a :: r ∈ seen

variable {seen waiting : List (List ContactId)}

theorem Routed.exists_cons (h : Routed s source w seen waiting) (hq : w.queue = t :: rest) :
    ∃ r ws, waiting = r :: ws ∧ (some t.target, t.depth) = (r.head?, r.length) := by
  have hqueue := h.queue
  rw [hq, List.map_cons] at hqueue
  obtain ⟨r, ws, rfl, hr, -⟩ := List.map_eq_cons_iff.1 hqueue.symm
  exact ⟨r, ws, rfl, hr.symm⟩

theorem Routed.takeUp {r : List ContactId} (hw : s.Wired) (threshold : Nat)
    (h : Routed s source w seen (r :: waiting)) (hq : w.queue = t :: rest) :
    ∃ new, Routed s source (takeUp threshold { w with queue := rest } t) (seen ++ [r]) (waiting ++ new) := by
  set v : Walk := { w with queue := rest }
  obtain ⟨next, hnext, hnodup, hfed⟩ := takeUp_brings (w := v) hw h.network threshold t
  have hqueue := h.queue
  rw [hq, List.map_cons, List.map_cons, List.cons.injEq, Prod.mk.injEq] at hqueue
  obtain ⟨⟨hhead, hdepth⟩, hrest⟩ := hqueue
  obtain ⟨tail, rfl⟩ : ∃ tail, r = t.target :: tail := ⟨_, (List.cons_head?_tail hhead.symm).symm⟩
  set r := t.target :: tail
  have hold : r ∉ seen := fun hr => (List.nodup_append.1 h.nodup).2.2 r hr r List.mem_cons_self rfl
  have hroute : s.Route source r := h.routes r (List.mem_append_right seen List.mem_cons_self)
  -- nothing has been brought along this route before, for that is done as its own task is taken up
  have hfresh {b : ContactId} : b :: r ∉ seen ++ r :: waiting := fun hb => hold (h.grown _ _ _ hb)
  have hsplit : seen ++ [r] ++ (waiting ++ next.map fun x => x.target :: r) =
      seen ++ r :: waiting ++ next.map fun x => x.target :: r := by
    simp only [List.append_assoc, List.cons_append, List.nil_append]
  have hnew {x : List ContactId} (hx : x ∈ next.map fun x => x.target :: r) :
      ∃ b, x = b :: r ∧ s.Feeds t.target b := by
    obtain ⟨y, hy, rfl⟩ := List.mem_map.1 hx
    exact ⟨y.target, rfl, (hfed y hy).1⟩
  refine ⟨next.map fun x => x.target :: r, ?_, ?_, ?_, ?_, ?_⟩
  · exact h.network.trans (advances_takeUp threshold v t).toSameNetwork
  · rw [hnext, List.map_append, List.map_append, hrest, List.map_map]
    refine congrArg _ (List.map_congr_left fun x hx => ?_)
    rw [Function.comp_apply, List.head?_cons, List.length_cons, ← hdepth, (hfed x hx).2]
  · rw [hsplit]
    intro x hx
    rcases List.mem_append.1 hx with hx | hx
    · exact h.routes x hx
    · obtain ⟨b, rfl, hb⟩ := hnew hx
      exact .extend hroute hb
  · rw [hsplit]
    refine List.nodup_append.2 ⟨h.nodup, ?_, fun x hx y hy he => ?_⟩
    · have hinj : (next.map fun x => x.target :: r) = (next.map (·.target)).map (· :: r) := by rw [List.map_map]; rfl
      exact hinj ▸ hnodup.map fun a b hab => (List.cons.inj hab).1
    · obtain ⟨b, rfl, -⟩ := hnew hy
      exact hfresh (he ▸ hx)
  · rw [hsplit]
    intro a b tail' hx
    rcases List.mem_append.1 hx with hx | hx
    · exact List.mem_append_left _ (h.grown a b tail' hx)
    · obtain ⟨c, he, -⟩ := hnew hx
      exact (List.cons.inj he).2 ▸ List.mem_append_right seen List.mem_cons_self

/-- The tasks that a call takes up have come along routes of their own. -/
theorem Routed.dequeued (hw : s.Wired) (limits : PropagationLimits) (h : Routed s source w seen waiting) :
    ∃ rs : List (List ContactId), (dequeued limits w).map (fun t => (some t.target, t.depth)) =
        rs.map (fun r => (r.head?, r.length)) ∧
      (∀ r ∈ rs, s.Route source r) ∧ (seen ++ rs).Nodup := by
  induction w using walk.induct limits generalizing seen waiting with
  | case1 w hq =>
    rw [dequeued_of_nil hq]
    refine ⟨[], rfl, List.forall_mem_nil _, ?_⟩
    rw [List.append_nil]
    exact h.nodup.of_append_left
  | case2 w t rest hq hd =>
    obtain ⟨r, ws, rfl, hr⟩ := h.exists_cons hq
    rw [dequeued_of_cons hq, if_pos hd]
    refine ⟨[r], by rw [List.map_singleton, List.map_singleton, hr], List.forall_mem_singleton.2 ?_, ?_⟩
    · exact h.routes r (List.mem_append_right seen List.mem_cons_self)
    · exact h.nodup.sublist (List.Sublist.append_left (List.singleton_sublist.2 List.mem_cons_self) seen)
  | case3 w t rest hq hd ih =>
    obtain ⟨r, ws, rfl, hr⟩ := h.exists_cons hq
    obtain ⟨new, hnext⟩ := h.takeUp hw limits.cycleThreshold hq
    obtain ⟨rs, hrs, hroutes, hnodup⟩ := ih hnext
    rw [dequeued_of_cons hq, if_neg hd]
    refine ⟨r :: rs, by rw [List.map_cons, List.map_cons, hr, hrs], List.forall_mem_cons.2 ⟨?_, hroutes⟩, ?_⟩
    · exact h.routes r (List.mem_append_right seen List.mem_cons_self)
    · rwa [List.append_assoc, List.singleton_append] at hnodup

theorem routed_start (hw : s.Wired) {s₀ : ContactStore} (hn : s.SameNetwork s₀) (current : Json) (changed : Bool) :
    ∃ waiting, Routed s source (start s₀ source current changed) [] waiting := by
  set targets := if current.isNull then [] else s₀.downstream source with htargets
  have hqueue : (start s₀ source current changed).queue.map (fun t => (some t.target, t.depth)) =
      (targets.map fun b => [b]).map fun r => (r.head?, r.length) := by
    simp only [start, htargets]
    split
    · rfl
    · rw [tasksFrom, List.map_map, List.map_map]
      rfl
  have hdown : targets.Nodup ∧ ∀ b ∈ targets, s.Feeds source b := by
    rw [htargets]
    split
    · exact ⟨.nil, List.forall_mem_nil _⟩
    · exact ⟨s₀.nodup_downstream source, fun b hb => hn.feeds_iff.1 ((ContactStore.mem_downstream (hn.wired hw)).1 hb)⟩
  refine ⟨targets.map fun b => [b], hn, hqueue, fun r hr => ?_, ?_, fun a b r hr => ?_⟩
  · obtain ⟨b, hb, rfl⟩ := List.mem_map.1 hr
    exact .single (hdown.2 b hb)
  · exact hdown.1.map fun a b hab => List.head_eq_of_cons_eq hab
  · obtain ⟨b, -, he⟩ := List.mem_map.1 hr
    cases he

/-- Where no task that is taken up is too deep, the call is not cut short. -/
theorem truncated_walk (limits : PropagationLimits) (h : ∀ t ∈ dequeued limits w, t.depth ≤ limits.maxDepth) :
    (walk limits w).stats.truncated = w.stats.truncated := by
  induction w using walk.induct limits with
  | case1 w hq => rw [walk_of_nil hq]
  | case2 w t rest hq hd =>
    rw [dequeued_of_cons hq, if_pos hd] at h
    exact absurd (h t List.mem_cons_self) (Nat.not_le.2 hd)
  | case3 w t rest hq hd ih =>
    rw [dequeued_of_cons hq, if_neg hd] at h
    rw [walk_of_cons hq, if_neg hd, ih fun x hx => h x (List.mem_cons_of_mem t hx), truncated_takeUp]

/-- Tasks that have come along routes of their own are no more than the routes. -/
theorem length_tasksTo_le {ds : List Task} {rs : List (List ContactId)} {id : ContactId}
    (hrs : ds.map (fun t => (some t.target, t.depth)) = rs.map fun r => (r.head?, r.length))
    (hroutes : ∀ r ∈ rs, s.Route source r) (hnodup : rs.Nodup) (hf : (s.routes source id).Finite) :
    (tasksTo id ds).length ≤ (s.routes source id).ncard := by
  have hcount : ds.countP (fun t => some t.target = some id) = rs.countP fun r => r.head? = some id := by
    have hmap := congrArg (List.countP fun x : Option ContactId × Nat => x.1 = some id) hrs
    rwa [List.countP_map, List.countP_map] at hmap
  have htasks : (tasksTo id ds).length = ds.countP fun t => some t.target = some id := by
    rw [tasksTo, List.countP_eq_length_filter]
    simp only [Option.some.injEq]
  rw [htasks, hcount, List.countP_eq_length_filter]
  refine length_le_ncard (hnodup.filter _) hf fun r hr => ?_
  obtain ⟨hr, hhead⟩ := List.mem_filter.1 hr
  exact ⟨hroutes r hr, of_decide_eq_true hhead⟩

/-- Where connections do not lead back, a task that is taken up is no deeper than there are contacts, and a contact has no
more tasks than there are routes to it. -/
theorem dequeued_start (hw : s.Wired) (ha : s.Acyclic source) {s₀ : ContactStore} (hn : s.SameNetwork s₀)
    (limits : PropagationLimits) (current : Json) (changed : Bool) :
    (∀ t ∈ dequeued limits (start s₀ source current changed), t.depth ≤ s.contacts.size) ∧
      ∀ id, (tasksTo id (dequeued limits (start s₀ source current changed))).length ≤ (s.routes source id).ncard := by
  obtain ⟨waiting, hrouted⟩ : ∃ waiting, Routed s source (start s₀ source current changed) [] waiting :=
    routed_start hw hn current changed
  obtain ⟨rs, hrs, hroutes, hnodup⟩ := hrouted.dequeued hw limits
  refine ⟨fun t ht => ?_, fun id => length_tasksTo_le hrs hroutes hnodup (hw.finite_routes ha id)⟩
  have hmem := hrs ▸ List.mem_map_of_mem (f := fun t : Task => (some t.target, t.depth)) ht
  obtain ⟨r, hr, he⟩ := List.mem_map.1 hmem
  exact (Prod.mk.inj he).2 ▸ (hroutes r hr).length_le hw ha

/-- A call that is not cut short carries the first tasks of each contact out, and finds those cyclic that have more. -/
theorem carried_start (hw : s.Wired) {current : Json} {changed : Bool}
    (hn : (walk limits (start s source current changed)).stats.truncated = false) :
    let w := walk limits (start s source current changed)
    let ts := dequeued limits (start s source current changed)
    (∀ id, tasksTo id w.carriedOut.reverse = (tasksTo id ts).take limits.cycleThreshold) ∧
      w.stats.cyclesDetected = {id | limits.cycleThreshold < (tasksTo id ts).length}.ncard ∧
      (w.stats.cyclesDetected = 0 ↔ ∀ id, (tasksTo id ts).length ≤ limits.cycleThreshold) := by
  intro w ts
  have hcounted := counted_start s source current changed limits.cycleThreshold
  have hover (id : ContactId) : id ∈ w.cyclic.keys ↔ limits.cycleThreshold < (tasksTo id ts).length := by
    have hcyclic := (hcounted.walk hn id).2
    rw [show (start s source current changed).visits.getD id 0 = 0 from rfl, Nat.zero_add] at hcyclic
    exact Dict.mem_keys.trans hcyclic
  have hwithin : Within limits s source (start s source current changed) := (within_start hw limits current changed).1
  have hcycles : w.stats.cyclesDetected = w.cyclic.keys.length := (hwithin.passes hw).1.cycles
  refine ⟨fun id => (hcounted.walk hn id).1, ?_, ?_⟩
  · have hset : {id | limits.cycleThreshold < (tasksTo id ts).length} = (w.cyclic.keys.toFinset : Set ContactId) := by
      ext id
      exact (hover id).symm.trans List.mem_toFinset.symm
    rw [hcycles, hset, Set.ncard_coe_finset, List.toFinset_card_of_nodup (Dict.nodup_keys _)]
  · rw [hcycles, List.length_eq_zero_iff, List.eq_nil_iff_forall_not_mem]
    exact forall_congr' fun id => (not_congr (hover id)).trans Nat.not_lt

end Propagation

namespace Engine

open Propagation

/-- Where connections do not lead back to where they come from, a call is not cut short as long as its limit of depth is no
less than the number of contacts. A contact has no more tasks than there are routes to it. The first of them are carried
out, as many as the threshold allows, and it is found cyclic if there are more. So none is, and no task is lost, where no
contact has more routes than that. -/
theorem propagate_acyclic {e e' : Engine} {source : ContactId} {v : Json} {stats : PropagationStats}
    (hb : e.store.Built) (ha : e.store.Acyclic source) (hd : e.store.contacts.size ≤ e.limits.maxDepth)
    (hp : e.propagate source v = .ok (e', stats)) :
    stats.truncated = false ∧
      (∀ id, (e.store.routes source id).Finite ∧
        (tasksTo id (e.dequeued source v)).length ≤ (e.store.routes source id).ncard ∧
        tasksTo id (e.carried source v) = (tasksTo id (e.dequeued source v)).take e.limits.cycleThreshold) ∧
      stats.cyclesDetected =
        {id | e.limits.cycleThreshold < (tasksTo id (e.dequeued source v)).length}.ncard ∧
      (stats.cyclesDetected = 0 ↔ e.carried source v = e.dequeued source v) ∧
      ((∀ id, (e.store.routes source id).ncard ≤ e.limits.cycleThreshold) → stats.cyclesDetected = 0) := by
  obtain ⟨w, hbegun, rfl, -⟩ := begun_of_propagate hp
  obtain ⟨store, changed, current, hu, -, hstart⟩ := begun_eq_some hbegun
  have hn : e.store.SameNetwork store := (ContactStore.Advances.of_update hu).toSameNetwork
  subst hstart
  have hcarried : e.carried source v = (walk e.limits (start store source current changed)).carriedOut.reverse := by
    rw [carried, hbegun]
    rfl
  have hdequeued : e.dequeued source v = Propagation.dequeued e.limits (start store source current changed) := by
    rw [dequeued, hbegun]
    rfl
  rw [hcarried, hdequeued]
  obtain ⟨hdepth, hroutes⟩ := dequeued_start hb.wired ha hn e.limits current changed
  have htruncated := truncated_walk e.limits fun t ht => (hdepth t ht).trans hd
  obtain ⟨hfirst, hcycles, hnone⟩ := carried_start (hn.wired hb.wired) htruncated
  refine ⟨htruncated, fun id => ⟨hb.wired.finite_routes ha id, hroutes id, hfirst id⟩, hcycles, hnone.trans ⟨?_, ?_⟩,
    fun hfew => hnone.2 fun id => (hroutes id).trans (hfew id)⟩
  · intro hall
    refine (counted_start store source current changed _).carriedOut_walk htruncated fun id => ?_
    exact (Nat.zero_add _).trans_le (hall id)
  · intro hsame id
    rw [← hsame, hfirst, List.length_take]
    exact Nat.min_le_left ..

/-- A contact that feeds two others, both of which feed a fourth. -/
def diamond (threshold : Nat) : Engine where
  store :=
    { contacts := Dict.ofList
        [("a", { id := "a", lattice := .disjunction, value := .null }),
          ("b", { id := "b", lattice := .disjunction, value := .null }),
          ("c", { id := "c", lattice := .disjunction, value := .null }),
          ("d", { id := "d", lattice := .disjunction, value := .null })]
      connections := Dict.ofList
        [("c1", { id := "c1", wire := "w", source := "a", target := "b" }),
          ("c2", { id := "c2", wire := "w", source := "a", target := "c" }),
          ("c3", { id := "c3", wire := "w", source := "b", target := "d" }),
          ("c4", { id := "c4", wire := "w", source := "c", target := "d" })]
      outgoing := Dict.ofList [("a", ["c1", "c2"]), ("b", ["c3"]), ("c", ["c4"])]
      lastConnection := 4 }
  limits := { maxDepth := 4, cycleThreshold := threshold }

theorem built_diamond (threshold : Nat) : (diamond threshold).store.Built := by
  have ha : ContactStore.Built _ :=
    .register .empty (rfl : ContactStore.empty.register "a" .disjunction none = .ok _)
  have hb := ha.register (rfl : ContactStore.register _ "b" .disjunction none = .ok _)
  have hc := hb.register (rfl : ContactStore.register _ "c" .disjunction none = .ok _)
  have hd := hc.register (rfl : ContactStore.register _ "d" .disjunction none = .ok _)
  have hab := hd.connect (rfl : ContactStore.connect _ "w" "a" "b" = .ok (_, "c1"))
  have hac := hab.connect (rfl : ContactStore.connect _ "w" "a" "c" = .ok (_, "c2"))
  have hbd := hac.connect (rfl : ContactStore.connect _ "w" "b" "d" = .ok (_, "c3"))
  exact hbd.connect (rfl : ContactStore.connect _ "w" "c" "d" = .ok ((diamond threshold).store, "c4"))

/-- Its connections lead up the alphabet. -/
theorem acyclic_diamond (threshold : Nat) : (diamond threshold).store.Acyclic "a" := by
  have hlt {a b : ContactId} (hab : (diamond threshold).store.Feeds a b) : a < b := by
    obtain ⟨id, x, hx, -, rfl, rfl⟩ := hab
    rw [Dict.get?_eq_some_iff] at hx
    change _ ∈ [_, _, _, _] at hx
    simp only [List.mem_cons, Prod.mk.injEq, List.not_mem_nil, or_false] at hx
    rcases hx with ⟨-, rfl⟩ | ⟨-, rfl⟩ | ⟨-, rfl⟩ | ⟨-, rfl⟩ <;> decide
  intro id _ hcycle
  have htrans {a b : ContactId} (h : Relation.TransGen (diamond threshold).store.Feeds a b) : a < b := by
    induction h with
    | single hab => exact hlt hab
    | tail _ hab ih => exact String.lt_trans ih (hlt hab)
  exact String.lt_irrefl id (htrans hcycle)

theorem propagate_acyclic_diamond :
    (diamond 2).store.contacts.size ≤ 4 ∧ ∃ e stats, (diamond 2).propagate "a" (.bool true) = .ok (e, stats) ∧
      stats.truncated = false ∧ stats.cyclesDetected = 0 ∧
      (diamond 2).carried "a" (.bool true) = (diamond 2).dequeued "a" (.bool true) ∧
      2 ≤ ((diamond 2).store.routes "a" "d").ncard := by
  have hrun : ((diamond 2).propagate "a" (.bool true)).map (fun (_, stats) => stats.cyclesDetected) = .ok 0 := by cbv
  have htwice : (tasksTo "d" ((diamond 2).dequeued "a" (.bool true))).length = 2 := by cbv
  obtain ⟨⟨e, stats⟩, hp, hcycles⟩ := ok_of_map hrun
  have hsize : (diamond 2).store.contacts.size ≤ 4 := by decide
  obtain ⟨hn, hroutes, -, hall, -⟩ := propagate_acyclic (built_diamond 2) (acyclic_diamond 2) hsize hp
  exact ⟨hsize, e, stats, hp, hn, hcycles, hall.1 hcycles, htwice ▸ (hroutes "d").2.1⟩

/-- With a threshold of one the fourth contact is found cyclic, though no connection leads back, and the second of its
tasks is dropped. -/
theorem cycles_detected_without_cycle :
    (diamond 1).store.Built ∧ (diamond 1).store.Acyclic "a" ∧ 1 ≤ (diamond 1).limits.cycleThreshold ∧
      (diamond 1).store.contacts.size ≤ (diamond 1).limits.maxDepth ∧
      ∃ e stats, (diamond 1).propagate "a" (.bool true) = .ok (e, stats) ∧ stats.cyclesDetected = 1 ∧
        ((diamond 1).dequeued "a" (.bool true)).map (·.target) = ["b", "c", "d", "d"] ∧
        ((diamond 1).carried "a" (.bool true)).map (·.target) = ["b", "c", "d"] := by
  have hrun : ((diamond 1).propagate "a" (.bool true)).map (fun (_, stats) => stats.cyclesDetected) = .ok 1 := by cbv
  obtain ⟨⟨e, stats⟩, hp, hcycles⟩ := ok_of_map hrun
  exact ⟨built_diamond 1, acyclic_diamond 1, by decide, by decide, e, stats, hp, hcycles, by cbv, by cbv⟩

end Engine

end Patchbay
