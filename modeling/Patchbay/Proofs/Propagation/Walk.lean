import Patchbay.Propagation.Engine
import Patchbay.Proofs.Contact.Advance

/-! Propagation calls, step by step: what taking up one task does, what therefore holds at the end of a call, and
that all a call does to a store is joins. -/

namespace Patchbay

namespace Propagation

/-- A walk that is cut short gives up the tasks that wait. -/
def Walk.cut (w : Walk) : Walk := { w with queue := [], stats := { w.stats with truncated := true } }

theorem walk_of_nil {limits : PropagationLimits} {w : Walk} (h : w.queue = []) : walk limits w = w := by
  rw [walk]
  split
  · rfl
  · next hq =>
    rw [h] at hq
    cases hq

theorem walk_of_cons {limits : PropagationLimits} {w : Walk} {t : Task} {rest : List Task}
    (h : w.queue = t :: rest) :
    walk limits w = if limits.maxDepth < t.depth then w.cut
      else walk limits (takeUp limits.cycleThreshold { w with queue := rest } t) := by
  rw [walk]
  split
  · next hq =>
    rw [h] at hq
    cases hq
  · next hq =>
    rw [h] at hq
    cases hq
    rfl

/-- What every task taken up keeps, and being cut short as well, a whole walk has kept. -/
theorem walk_keeps {P : Walk → Prop} {limits : PropagationLimits}
    (step : ∀ w t rest, w.queue = t :: rest → P w → P (takeUp limits.cycleThreshold { w with queue := rest } t))
    (cut : ∀ w, P w → P w.cut) {w : Walk} (h : P w) : P (walk limits w) := by
  induction w using walk.induct limits with
  | case1 w hq => rwa [walk_of_nil hq]
  | case2 w t rest hq hd =>
    rw [walk_of_cons hq, if_pos hd]
    exact cut w h
  | case3 w t rest hq hd ih =>
    rw [walk_of_cons hq, if_neg hd]
    exact ih (step w t rest hq h)

/-- A walk ends when no task waits. -/
theorem queue_walk (limits : PropagationLimits) (w : Walk) : (walk limits w).queue = [] := by
  induction w using walk.induct limits with
  | case1 w hq => rw [walk_of_nil hq, hq]
  | case2 w t rest hq hd => rw [walk_of_cons hq, if_pos hd, Walk.cut]
  | case3 w t rest hq hd ih => rw [walk_of_cons hq, if_neg hd, ih]

/-- A task is refused by its target, makes no difference there, or raises it and goes on from there. -/
theorem carryOut_cases (w : Walk) (t : Task) :
    (∃ e, w.store.update t.target t.value = .error e ∧ (carryOut w t).store = w.store ∧
      (carryOut w t).queue = w.queue ∧ (carryOut w t).stats.rejected = w.stats.rejected + 1) ∨
    (∃ s, w.store.update t.target t.value = .ok (s, false) ∧ (carryOut w t).store = w.store ∧
      (carryOut w t).queue = w.queue ∧ (carryOut w t).stats.rejected = w.stats.rejected) ∨
    (∃ s v, w.store.update t.target t.value = .ok (s, true) ∧ s.value t.target = .ok v ∧
      (carryOut w t).store = s ∧
      (carryOut w t).queue = w.queue ++
        (tasksFrom s t.target v (t.depth + 1)).filter (fun x => x.target ≠ t.source) ∧
      (carryOut w t).stats.rejected = w.stats.rejected) := by
  cases hu : w.store.update t.target t.value with
  | error e => exact .inl ⟨e, rfl, by simp only [carryOut, hu, and_self]⟩
  | ok p =>
    obtain ⟨s, changed⟩ := p
    cases changed with
    | false => exact .inr (.inl ⟨s, rfl, by simp only [carryOut, hu, and_self]⟩)
    | true =>
      obtain ⟨c, joined, -, -, ⟨-, hf, -⟩ | ⟨-, -, change, -, hs⟩⟩ := ContactStore.update_cases hu
      · cases hf
      · have hv : s.value t.target = .ok joined := by
          rw [hs]
          exact ContactStore.value_eq_ok.2 ⟨_, Dict.get?_insert_self .., rfl⟩
        exact .inr (.inr ⟨s, joined, rfl, hv, by simp only [carryOut, hu, hv, and_self]⟩)

variable {w w' : Walk} {t : Task} {rest : List Task} {c : Contact} {joined : Json}

/-- The next task raises its target from what the contact `c` held to `joined`, and the target passes this on to all but
the task's source. -/
structure Raises (w w' : Walk) (t : Task) (rest : List Task) (c : Contact) (joined : Json) : Prop where
  next : w.queue = t :: rest
  held : w.store.contacts.get? t.target = some c
  join : c.lattice.join c.value t.value = .ok joined
  raised : w'.store.contacts.get? t.target = some (ContactStore.raised c joined)
  others : ∀ id, id ≠ t.target → w'.store.contacts.get? id = w.store.contacts.get? id
  queue : w'.queue = rest ++ (tasksFrom w'.store t.target joined (t.depth + 1)).filter fun x => x.target ≠ t.source

theorem raises_of_update {v : Json} (hq : w.queue = t :: rest)
    (hu : w.store.update t.target t.value = .ok (w'.store, true)) (hv : w'.store.value t.target = .ok v)
    (hqueue : w'.queue = rest ++ (tasksFrom w'.store t.target v (t.depth + 1)).filter fun x => x.target ≠ t.source) :
    ∃ c, Raises w w' t rest c v := by
  obtain ⟨c, joined, hc, hj, ⟨-, hf, -⟩ | ⟨-, -, change, -, hstore⟩⟩ := ContactStore.update_cases hu
  · cases hf
  have hnew : w'.store.contacts.get? t.target = some (ContactStore.raised c joined) := by
    rw [hstore]
    exact Dict.get?_insert_self ..
  obtain ⟨d, hd, rfl⟩ := ContactStore.value_eq_ok.1 hv
  cases hnew.symm.trans hd
  refine ⟨c, hq, hc, hj, hnew, fun id hid => ?_, hqueue⟩
  rw [hstore]
  exact Dict.get?_insert_of_ne _ hid _

namespace Raises

/-- A task waits that waited before, or that brings the new value of the target to someone downstream. -/
theorem mem_queue (h : Raises w w' t rest c joined) {x : Task} (hx : x ∈ w'.queue) :
    x ∈ rest ∨ ∃ b ∈ w'.store.downstream t.target, x = ⟨t.target, b, joined, t.depth + 1⟩ := by
  rw [h.queue] at hx
  refine (List.mem_append.1 hx).imp_right fun hx => ?_
  obtain ⟨b, hb, rfl⟩ := List.mem_map.1 (List.mem_of_mem_filter hx)
  exact ⟨b, hb, rfl⟩

theorem queue_of_mem (h : Raises w w' t rest c joined) {id : ContactId} (hid : id ∈ w'.store.downstream t.target)
    (hne : id ≠ t.source) : ⟨t.target, id, joined, t.depth + 1⟩ ∈ w'.queue := by
  rw [h.queue]
  exact List.mem_append_right _ (List.mem_filter.2 ⟨List.mem_map.2 ⟨id, hid, rfl⟩, decide_eq_true hne⟩)

theorem queue_of_mem_rest (h : Raises w w' t rest c joined) {x : Task} (hx : x ∈ rest) : x ∈ w'.queue := by
  rw [h.queue]
  exact List.mem_append_left _ hx

end Raises

theorem visits_carryOut (w : Walk) (t : Task) : (carryOut w t).visits = w.visits := by
  simp only [carryOut]
  split <;> rfl

theorem cyclic_carryOut (w : Walk) (t : Task) : (carryOut w t).cyclic = w.cyclic := by
  simp only [carryOut]
  split <;> rfl

theorem truncated_carryOut (w : Walk) (t : Task) :
    (carryOut w t).stats.truncated = w.stats.truncated := by
  simp only [carryOut]
  split <;> rfl

/-- The walk has come by a contact. -/
def Walk.Marks (w : Walk) (id : ContactId) : Prop := w.visits.getD id 0 ≠ 0 ∨ w.cyclic.contains id = true

theorem truncated_takeUp (threshold : Nat) (w : Walk) (t : Task) :
    (takeUp threshold w t).stats.truncated = w.stats.truncated := by
  unfold takeUp
  split
  · rfl
  · simp only
    split
    · rfl
    · rw [truncated_carryOut]

/-- Taking up a task brings the walk by its target and no other contact. -/
theorem marks_takeUp {threshold : Nat} {w : Walk} {t : Task} {id : ContactId}
    (h : (takeUp threshold w t).Marks id) : w.Marks id ∨ id = t.target := by
  have hvisits {n : Nat} (hn : (w.visits.insert t.target n).getD id 0 ≠ 0) (hid : id ≠ t.target) :
      w.visits.getD id 0 ≠ 0 := by
    rwa [Dict.getD, Dict.get?_insert_of_ne _ hid] at hn
  refine or_iff_not_imp_right.2 fun hid => ?_
  unfold takeUp at h
  split at h
  · exact h
  · simp only at h
    split at h
    · rcases h with hn | hc
      · exact .inl (hvisits hn hid)
      · exact .inr (((Names.contains_add ..).1 hc).resolve_left hid)
    · rw [Walk.Marks, visits_carryOut, cyclic_carryOut] at h
      exact h.imp_left fun hn => hvisits hn hid

/-- A task is dropped where the walk has come by before, or it is carried out. -/
theorem takeUp_cases {threshold : Nat} (ht : 1 ≤ threshold) (w : Walk) (t : Task) :
    (w.Marks t.target ∧ (takeUp threshold w t).store = w.store ∧ (takeUp threshold w t).queue = w.queue ∧
      (takeUp threshold w t).stats.rejected = w.stats.rejected) ∨
    takeUp threshold w t =
      carryOut { w with visits := w.visits.insert t.target (w.visits.getD t.target 0 + 1) } t := by
  unfold takeUp
  split
  · next hc => exact .inl ⟨.inr hc, rfl, rfl, rfl⟩
  · simp only
    split
    · -- a visit too many is not the first
      next hs => exact .inl ⟨.inl (by omega), rfl, rfl, rfl⟩
    · exact .inr rfl

theorem advances_carryOut (w : Walk) (t : Task) : w.store.Advances (carryOut w t).store := by
  rcases carryOut_cases w t with ⟨e, -, hs, -⟩ | ⟨s, -, hs, -⟩ | ⟨s, v, hu, -, hs, -⟩
  · rw [hs]
    exact .refl _
  · rw [hs]
    exact .refl _
  · rw [hs]
    exact .of_update hu

theorem advances_takeUp (threshold : Nat) (w : Walk) (t : Task) :
    w.store.Advances (takeUp threshold w t).store := by
  unfold takeUp
  split
  · exact .refl _
  · simp only
    split
    · exact .refl _
    · exact advances_carryOut { w with visits := w.visits.insert t.target (w.visits.getD t.target 0 + 1) } t

theorem advances_walk (limits : PropagationLimits) (w : Walk) :
    w.store.Advances (walk limits w).store :=
  walk_keeps (P := fun v => w.store.Advances v.store)
    (fun v t rest _ h => h.trans (advances_takeUp limits.cycleThreshold { v with queue := rest } t))
    (fun _ h => h) (.refl _)

end Propagation

namespace Engine

/-- A call joins the value into its source and walks on from there. -/
theorem propagate_cases {e e' : Engine} {source : ContactId} {v : Json} {stats : PropagationStats}
    (h : e.propagate source v = .ok (e', stats)) :
    ∃ store changed current, e.store.update source v = .ok (store, changed) ∧
      store.value source = .ok current ∧
      e' = { e with
        store := (Propagation.walk e.limits (Propagation.start store source current changed)).store
        totals := e.totals.record stats } ∧
      stats = (Propagation.walk e.limits (Propagation.start store source current changed)).stats := by
  obtain ⟨⟨store, changed⟩, hu, h⟩ := ok_of_bind h
  obtain ⟨current, hc, h⟩ := ok_of_bind h
  cases h
  exact ⟨store, changed, current, hu, hc, rfl, rfl⟩

/-- A source that took the value has one to pass on. -/
theorem exists_propagate {e : Engine} {source : ContactId} {v : Json} {p : ContactStore × Bool}
    (hu : e.store.update source v = .ok p) : ∃ q, e.propagate source v = .ok q := by
  obtain ⟨store, changed⟩ := p
  obtain ⟨current, hc⟩ := ContactStore.exists_value_of_update hu
  simp only [propagate, hu, hc, bind, Except.bind, pure, Except.pure]
  exact ⟨_, rfl⟩

theorem update_of_refused {e : Engine} {source : ContactId} {v : Json} {cause : ContactError}
    (h : e.propagate source v = .error cause) : e.store.update source v = .error cause := by
  cases hu : e.store.update source v with
  | error _ =>
    simp only [propagate, hu, bind, Except.bind] at h
    cases h
    rfl
  | ok p =>
    obtain ⟨q, hq⟩ := exists_propagate hu
    rw [hq] at h
    cases h

theorem advances_propagate {e e' : Engine} {source : ContactId} {v : Json} {stats : PropagationStats}
    (h : e.propagate source v = .ok (e', stats)) : e.store.Advances e'.store := by
  obtain ⟨store, changed, current, hu, -, rfl, -⟩ := propagate_cases h
  exact (ContactStore.Advances.of_update hu).trans
    (Propagation.advances_walk e.limits (Propagation.start store source current changed))

end Engine

end Patchbay
