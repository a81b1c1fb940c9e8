import Patchbay.Proofs.Lattice.Order
import Patchbay.Proofs.Propagation.Bounds
import Patchbay.Proofs.Propagation.Effect

/-! Propagation calls with different limits of depth. The queue of a call holds the tasks of one depth and behind them
those of the next, so that nothing is lost when it is given up at the first task that is too deep: a call with the lower
limit is a call with the higher one, broken off. -/

namespace Patchbay

/-! ## What writes keep -/

namespace ContactStore

variable {s : ContactStore} {id : ContactId} {c : Contact}

/-- What the joins of a contact's lattice keep, a write to any contact keeps. -/
theorem exists_get?_write {P : Json → Prop} (hc : s.contacts.get? id = some c) (hP : P c.value)
    {p : ContactId × Json} (step : p.1 = id → ∀ joined, c.lattice.join c.value p.2 = .ok joined →
      c.lattice.equivalent joined c.value = false → P joined) :
    ∃ c', (s.write p).contacts.get? id = some c' ∧ c'.lattice = c.lattice ∧ P c'.value := by
  rcases s.write_cases p with ⟨-, hw⟩ | ⟨d, joined, hd, hj, hne, -, hw⟩
  · exact ⟨c, by rwa [hw], rfl, hP⟩
  · rw [hw]
    by_cases hp : p.1 = id
    · subst hp
      rw [hc] at hd
      cases hd
      exact ⟨raised c joined, Dict.get?_insert_self .., rfl, step rfl joined hj hne⟩
    · exact ⟨c, (Dict.get?_insert_of_ne _ (Ne.symm hp) _).trans hc, rfl, hP⟩

theorem exists_get?_writeAll {P : Json → Prop} (ps : List (ContactId × Json)) (hc : s.contacts.get? id = some c)
    (hP : P c.value) (step : ∀ p ∈ ps, p.1 = id → ∀ v joined, P v → c.lattice.join v p.2 = .ok joined →
      c.lattice.equivalent joined v = false → P joined) :
    ∃ c', (s.writeAll ps).contacts.get? id = some c' ∧ c'.lattice = c.lattice ∧ P c'.value := by
  induction ps generalizing s c with
  | nil => exact ⟨c, hc, rfl, hP⟩
  | cons p rest ih =>
    obtain ⟨c₁, hc₁, hl₁, hP₁⟩ := exists_get?_write hc hP fun hp joined hj =>
      step p List.mem_cons_self hp c.value joined hP hj
    obtain ⟨c₂, hc₂, hl₂, hP₂⟩ := ih hc₁ hP₁ fun q hq => hl₁ ▸ step q (List.mem_cons_of_mem p hq)
    exact ⟨c₂, hc₂, hl₂.trans hl₁, hP₂⟩

/-- What the contact holds in one store lies below what it holds in the other. -/
def BelowAt (s s' : ContactStore) (id : ContactId) : Prop :=
  ∃ c c', s.contacts.get? id = some c ∧ s'.contacts.get? id = some c' ∧ c'.lattice = c.lattice ∧
    c.lattice.Below c.value c'.value

/-- On an orderly lattice writes only raise a contact, whatever is written. -/
theorem belowAt_of_orderly {carrier : Json → Prop} (hl : c.lattice.Orderly carrier)
    (hc : s.contacts.get? id = some c) (hv : carrier c.value) (ps qs : List (ContactId × Json)) :
    (s.writeAll ps).BelowAt (s.writeAll (ps ++ qs)) id := by
  obtain ⟨c₁, hc₁, hl₁, hv₁⟩ := exists_get?_writeAll ps hc hv
    fun _ _ _ v joined hv hj _ => (hl.accepted hv hj).1
  rw [← hl₁] at hl
  obtain ⟨c₂, hc₂, hl₂, -, hbelow⟩ := exists_get?_writeAll (P := fun v => carrier v ∧ c₁.lattice.Below c₁.value v)
    qs hc₁ ⟨hv₁, hl.coherent.below_refl hv₁⟩ fun p _ _ v joined ⟨hv, hb⟩ hj hne => by
      obtain ⟨hjoined, hp | he⟩ := hl.accepted hv hj
      · exact ⟨hjoined, hl.coherent.below_trans hv₁ hv hjoined hb (hl.coherent.below_join_left hv hp hj)⟩
      · rw [hne] at he
        cases he
  exact ⟨c₁, c₂, hc₁, by rw [writeAll, List.foldl_append]; exact hc₂, hl₂, hbelow⟩

/-- On a lawful lattice values of the carrier only raise a contact. -/
theorem belowAt_of_lawful {carrier : Json → Prop} (hl : c.lattice.Lawful carrier)
    (hc : s.contacts.get? id = some c) (hv : carrier c.value) {ps qs : List (ContactId × Json)}
    (hps : ∀ p ∈ ps ++ qs, p.1 = id → carrier p.2) :
    (s.writeAll ps).BelowAt (s.writeAll (ps ++ qs)) id := by
  obtain ⟨c₁, hc₁, hl₁, hv₁⟩ := exists_get?_writeAll ps hc hv
    fun p hp hid v joined hv hj _ => (hl.element_join hv (hps p (List.mem_append_left qs hp) hid) hj).1
  rw [← hl₁] at hl
  obtain ⟨c₂, hc₂, hl₂, hv₂, hle⟩ := exists_get?_writeAll
    (P := fun v => carrier v ∧ hl.element c₁.value ≤ hl.element v) qs hc₁ ⟨hv₁, le_rfl⟩
    fun p hp hid v joined ⟨hv, hle⟩ hj _ => by
      obtain ⟨hjoined, he⟩ := hl.element_join hv (hps p (List.mem_append_right ps hp) hid) hj
      exact ⟨hjoined, he ▸ hle.trans le_sup_left⟩
  exact ⟨c₁, c₂, hc₁, by rw [writeAll, List.foldl_append]; exact hc₂, hl₂, (hl.below_iff hv₁ hv₂).2 hle⟩

/-- Each contact is on a lattice that is lawful on its carrier and holds a value of it, and the values of one contact's
carrier are among those of the contacts that it feeds. -/
structure Inside (s : ContactStore) (carrier : ContactId → Json → Prop) : Prop where
  lawful : ∀ id c, s.contacts.get? id = some c → c.lattice.Lawful (carrier id) ∧ carrier id c.value
  flows : ∀ a b, b ∈ s.downstream a → ∀ v, carrier a v → carrier b v

theorem Inside.update {carrier : ContactId → Json → Prop} (h : s.Inside carrier) {s' : ContactStore} {v : Json}
    {changed : Bool} (hv : carrier id v) (hu : s.update id v = .ok (s', changed)) : s'.Inside carrier := by
  refine ⟨fun k d hd => ?_, fun a b hb => h.flows a b ?_⟩
  · obtain ⟨c, joined, hc, hj, ⟨-, -, rfl⟩ | ⟨-, -, change, -, rfl⟩⟩ := update_cases hu
    · exact h.lawful k d hd
    · rcases Dict.get?_insert_eq_some.1 hd with ⟨rfl, rfl⟩ | ⟨-, hd⟩
      · obtain ⟨hl, hcv⟩ := h.lawful _ c hc
        exact ⟨hl, (hl.element_join hcv hv hj).1⟩
      · exact h.lawful k d hd
  · rwa [← (Advances.of_update hu).downstream_eq]

end ContactStore

namespace Propagation

variable {threshold d : Nat} {w v : Walk} {t : Task} {rest : List Task}

/-! ## Taking up a task -/

/-- What a task brings is for contacts that its target feeds, one task for each. It is one connection further away, and
waits behind what waits already. -/
theorem takeUp_queue (threshold : Nat) (w : Walk) (t : Task) :
    ∃ next, (takeUp threshold w t).queue = w.queue ++ next ∧ (next.map (·.target)).Nodup ∧
      ∀ x ∈ next, x.target ∈ (takeUp threshold w t).store.downstream t.target ∧ x.depth = t.depth + 1 := by
  have hnone {v : Walk} (hq : v.queue = w.queue) : ∃ next, v.queue = w.queue ++ next ∧ (next.map (·.target)).Nodup ∧
      ∀ x ∈ next, x.target ∈ v.store.downstream t.target ∧ x.depth = t.depth + 1 :=
    ⟨[], hq.trans (List.append_nil _).symm, .nil, List.forall_mem_nil _⟩
  rw [takeUp_eq]
  split
  · exact hnone rfl
  split
  · exact hnone rfl
  rcases carryOut_cases (w.noteVisit t.target) t with
    ⟨_, -, -, hq, -⟩ | ⟨_, -, -, hq, -⟩ | ⟨s, v, -, -, hstore, hq, -⟩
  · exact hnone hq
  · exact hnone hq
  · refine ⟨_, hq, ?_, fun x hx => ?_⟩
    · have hdown : ((tasksFrom s t.target v (t.depth + 1)).map (·.target)).Nodup := by
        rw [tasksFrom, List.map_map]
        exact (List.map_id _).symm ▸ s.nodup_downstream t.target
      exact hdown.sublist (List.filter_sublist.map _)
    · obtain ⟨b, hb, rfl⟩ := List.mem_map.1 (List.mem_of_mem_filter hx)
      exact ⟨hstore.symm ▸ hb, rfl⟩

theorem takeUp_carriedOut (threshold : Nat) (w : Walk) (t : Task) :
    (takeUp threshold w t).carriedOut = w.carriedOut ∨ (takeUp threshold w t).carriedOut = t :: w.carriedOut := by
  rw [takeUp_eq]
  split
  · exact .inl rfl
  · split
    · exact .inl rfl
    · exact .inr (carryOut_writes (w.noteVisit t.target) t).2

/-! ## The queue in layers -/

/-- The tasks of one depth wait, and behind them those that are one connection further away. -/
def Walk.Layered (w : Walk) : Prop :=
  ∃ k near far, w.queue = near ++ far ∧ (∀ t ∈ near, t.depth = k) ∧ ∀ t ∈ far, t.depth = k + 1

/-- The layers may be told so that the next task belongs to the first. -/
theorem Walk.Layered.of_cons (h : w.Layered) (hq : w.queue = t :: rest) :
    ∃ near far, rest = near ++ far ∧ (∀ x ∈ near, x.depth = t.depth) ∧ ∀ x ∈ far, x.depth = t.depth + 1 := by
  obtain ⟨k, near, far, hqueue, hnear, hfar⟩ := h
  rw [hq] at hqueue
  cases near with
  | nil =>
    rw [List.nil_append] at hqueue
    subst hqueue
    have ht : t.depth = k + 1 := hfar t List.mem_cons_self
    exact ⟨rest, [], (List.append_nil _).symm, fun x hx => (hfar x (List.mem_cons_of_mem t hx)).trans ht.symm,
      List.forall_mem_nil _⟩
  | cons x near =>
    obtain ⟨rfl, hrest⟩ := List.cons.inj hqueue
    have ht : t.depth = k := hnear t List.mem_cons_self
    exact ⟨near, far, hrest, fun x hx => (hnear x (List.mem_cons_of_mem t hx)).trans ht.symm, ht.symm ▸ hfar⟩

/-- No task that waits is nearer than the next one. -/
theorem Walk.Layered.depth_le (h : w.Layered) (hq : w.queue = t :: rest) : ∀ x ∈ w.queue, t.depth ≤ x.depth := by
  obtain ⟨near, far, hrest, hnear, hfar⟩ := h.of_cons hq
  intro x hx
  rw [hq, hrest] at hx
  rcases List.mem_cons.1 hx with rfl | hx
  · exact Nat.le_refl _
  · rcases List.mem_append.1 hx with hx | hx
    · exact (hnear x hx).ge
    · exact (hfar x hx).symm ▸ Nat.le_succ _

theorem Walk.Layered.takeUp (h : w.Layered) (hq : w.queue = t :: rest) :
    (takeUp threshold { w with queue := rest } t).Layered := by
  obtain ⟨near, far, hrest, hnear, hfar⟩ := h.of_cons hq
  obtain ⟨next, hnext, -, hbrought⟩ := takeUp_queue threshold { w with queue := rest } t
  refine ⟨t.depth, near, far ++ next, by rw [hnext, hrest, List.append_assoc], hnear, fun x hx => ?_⟩
  exact (List.mem_append.1 hx).elim (hfar x) fun hx => (hbrought x hx).2

theorem layered_start (s : ContactStore) (source : ContactId) (current : Json) (changed : Bool) :
    (start s source current changed).Layered := by
  refine ⟨1, (start s source current changed).queue, [], (List.append_nil _).symm, fun t ht => ?_,
    List.forall_mem_nil _⟩
  simp only [start] at ht
  split at ht
  · cases ht
  · obtain ⟨b, -, rfl⟩ := List.mem_map.1 ht
    rfl

/-! ## The tasks that are taken from the queue -/

theorem pass_decreases (threshold : Nat) (hq : w.queue = t :: rest) :
    Prod.Lex (· < ·) (· < ·)
      ((takeUp threshold { w with queue := rest } t).credit threshold,
        (takeUp threshold { w with queue := rest } t).queue.length)
      (w.credit threshold, w.queue.length) := by
  have hcredit : ({ w with queue := rest } : Walk).credit threshold = w.credit threshold := rfl
  rcases takeUp_decreases threshold { w with queue := rest } t with hlt | ⟨hle, hqueue⟩
  · exact .left _ _ (hcredit ▸ hlt)
  · rcases Nat.lt_or_eq_of_le (hcredit ▸ hle) with hlt | heq
    · exact .left _ _ hlt
    · rw [heq, hqueue, hq]
      exact .right _ (Nat.lt_succ_self _)

/-- The tasks that a walk takes from its queue, in order. The last may be one that is too deep. -/
def dequeued (limits : PropagationLimits) (w : Walk) : List Task :=
  match _h : w.queue with
  | [] => []
  | t :: rest =>
    if limits.maxDepth < t.depth then [t]
    else t :: dequeued limits (takeUp limits.cycleThreshold { w with queue := rest } t)
termination_by (w.credit limits.cycleThreshold, w.queue.length)
decreasing_by exact pass_decreases limits.cycleThreshold _h

theorem dequeued_of_nil {limits : PropagationLimits} (h : w.queue = []) : dequeued limits w = [] := by
  rw [dequeued]
  split
  · rfl
  · next hq =>
    rw [h] at hq
    cases hq

theorem dequeued_of_cons {limits : PropagationLimits} (h : w.queue = t :: rest) :
    dequeued limits w = if limits.maxDepth < t.depth then [t]
      else t :: dequeued limits (takeUp limits.cycleThreshold { w with queue := rest } t) := by
  rw [dequeued]
  split
  · next hq =>
    rw [h] at hq
    cases hq
  · next hq =>
    rw [h] at hq
    cases hq
    rfl

/-! ## Down to a depth -/

/-- A walk comes by a point where all tasks down to a depth have been taken up, and no others. So does it with any limit
that is no lower. -/
structure ComesBy (threshold d : Nat) (w : Walk) (near : List Task) (v : Walk) : Prop where
  taken : ∀ t ∈ near, t.depth ≤ d
  waiting : ∀ t ∈ v.queue, d < t.depth
  carried : ∃ new, v.carriedOut = new ++ w.carriedOut ∧ ∀ t ∈ new, t.depth ≤ d
  truncated : v.stats.truncated = w.stats.truncated
  walk_eq : ∀ D, d ≤ D → walk ⟨D, threshold⟩ w = walk ⟨D, threshold⟩ v
  dequeued_eq : ∀ D, d ≤ D → dequeued ⟨D, threshold⟩ w = near ++ dequeued ⟨D, threshold⟩ v

theorem ComesBy.here (h : ∀ t ∈ w.queue, d < t.depth) : ComesBy threshold d w [] w where
  taken := List.forall_mem_nil _
  waiting := h
  carried := ⟨[], rfl, List.forall_mem_nil _⟩
  truncated := rfl
  walk_eq _ _ := rfl
  dequeued_eq _ _ := rfl

theorem ComesBy.pass {near : List Task} (hq : w.queue = t :: rest) (ht : t.depth ≤ d)
    (h : ComesBy threshold d (takeUp threshold { w with queue := rest } t) near v) :
    ComesBy threshold d w (t :: near) v where
  taken := List.forall_mem_cons.2 ⟨ht, h.taken⟩
  waiting := h.waiting
  carried := by
    obtain ⟨new, hnew, hdepth⟩ := h.carried
    rcases takeUp_carriedOut threshold { w with queue := rest } t with he | he
    · exact ⟨new, he ▸ hnew, hdepth⟩
    · refine ⟨new ++ [t], by rw [hnew, he, List.append_assoc]; rfl, fun x hx => ?_⟩
      rcases List.mem_append.1 hx with hx | hx
      · exact hdepth x hx
      · exact List.mem_singleton.1 hx ▸ ht
  truncated := h.truncated.trans (truncated_takeUp threshold { w with queue := rest } t)
  walk_eq D hD := by
    rw [walk_of_cons hq, if_neg (Nat.not_lt.2 (ht.trans hD))]
    exact h.walk_eq D hD
  dequeued_eq D hD := by
    rw [dequeued_of_cons hq, if_neg (Nat.not_lt.2 (ht.trans hD)), h.dequeued_eq D hD, List.cons_append]

theorem exists_comesBy (threshold d : Nat) (h : w.Layered) : ∃ near v, ComesBy threshold d w near v := by
  -- the walk with the limit `d` takes up just the tasks that every walk with a higher limit takes up first
  induction w using walk.induct ⟨d, threshold⟩ with
  | case1 w hq => exact ⟨[], w, .here (hq ▸ List.forall_mem_nil _)⟩
  | case2 w t rest hq hd => exact ⟨[], w, .here fun x hx => Nat.lt_of_lt_of_le hd (h.depth_le hq x hx)⟩
  | case3 w t rest hq hd ih =>
    obtain ⟨near, v, hv⟩ := ih (h.takeUp hq)
    exact ⟨t :: near, v, hv.pass hq (Nat.le_of_not_lt hd)⟩

/-- Where all tasks that wait are deep, so are those that they bring. -/
theorem deep_takeUp (h : ∀ x ∈ w.queue, d < x.depth) (hq : w.queue = t :: rest) :
    ∀ x ∈ (takeUp threshold { w with queue := rest } t).queue, d < x.depth := by
  obtain ⟨next, hnext, -, hbrought⟩ := takeUp_queue threshold { w with queue := rest } t
  have ht : d < t.depth := h t (hq ▸ List.mem_cons_self)
  intro x hx
  rw [hnext] at hx
  rcases List.mem_append.1 hx with hx | hx
  · exact h x (hq ▸ List.mem_cons_of_mem t hx)
  · exact (hbrought x hx).2.symm ▸ ht.trans (Nat.lt_succ_self _)

theorem deep_dequeued (limits : PropagationLimits) (h : ∀ x ∈ w.queue, d < x.depth) :
    ∀ x ∈ dequeued limits w, d < x.depth := by
  induction w using walk.induct limits with
  | case1 w hq =>
    rw [dequeued_of_nil hq]
    exact List.forall_mem_nil _
  | case2 w t rest hq hd =>
    rw [dequeued_of_cons hq, if_pos hd]
    exact List.forall_mem_singleton.2 (h t (hq ▸ List.mem_cons_self))
  | case3 w t rest hq hd ih =>
    rw [dequeued_of_cons hq, if_neg hd]
    exact List.forall_mem_cons.2 ⟨h t (hq ▸ List.mem_cons_self), ih (deep_takeUp h hq)⟩

theorem deep_walk (limits : PropagationLimits) (h : ∀ x ∈ w.queue, d < x.depth) :
    ∃ new, (walk limits w).carriedOut = new ++ w.carriedOut ∧ ∀ x ∈ new, d < x.depth := by
  refine (walk_keeps (P := fun v => (∀ x ∈ v.queue, d < x.depth) ∧
    ∃ new, v.carriedOut = new ++ w.carriedOut ∧ ∀ x ∈ new, d < x.depth) ?_ ?_ ⟨h, [], rfl, List.forall_mem_nil _⟩).2
  · rintro v t rest hq ⟨hv, new, hnew, hdepth⟩
    refine ⟨deep_takeUp hv hq, ?_⟩
    rcases takeUp_carriedOut limits.cycleThreshold { v with queue := rest } t with he | he
    · exact ⟨new, he.trans hnew, hdepth⟩
    · exact ⟨t :: new, by rw [he, hnew, List.cons_append],
        List.forall_mem_cons.2 ⟨hv t (hq ▸ List.mem_cons_self), hdepth⟩⟩
  · exact fun v ⟨_, hv⟩ => ⟨List.forall_mem_nil _, hv⟩

/-- With its own limit a walk ends where it has come down to, and is cut short there if a task waits. -/
theorem walk_of_deep (threshold : Nat) (h : ∀ x ∈ w.queue, d < x.depth) :
    (walk ⟨d, threshold⟩ w).carriedOut = w.carriedOut ∧
      ((walk ⟨d, threshold⟩ w).stats.truncated = true ↔ w.stats.truncated = true ∨ w.queue ≠ []) := by
  cases hq : w.queue with
  | nil =>
    rw [walk_of_nil hq]
    simp
  | cons t rest =>
    have ht : d < t.depth := h t (hq ▸ List.mem_cons_self)
    rw [walk_of_cons hq, if_pos ht]
    simp [Walk.cut]

theorem dequeued_ne_nil_iff (limits : PropagationLimits) : dequeued limits w ≠ [] ↔ w.queue ≠ [] := by
  cases hq : w.queue with
  | nil => simp [dequeued_of_nil hq]
  | cons t rest =>
    rw [dequeued_of_cons hq]
    split <;> simp

/-- The walk with the lower limit of depth is the first part of the one with the higher. -/
theorem walk_prefix (threshold : Nat) {D : Nat} (h : w.Layered) (hout : w.carriedOut = [])
    (hn : w.stats.truncated = false) (hd : d ≤ D) :
    (∃ deeper, (walk ⟨D, threshold⟩ w).carriedOut = deeper ++ (walk ⟨d, threshold⟩ w).carriedOut ∧
      ∀ t ∈ deeper, d < t.depth) ∧
    (∀ t ∈ (walk ⟨d, threshold⟩ w).carriedOut, t.depth ≤ d) ∧
    (dequeued ⟨d, threshold⟩ w).filter (·.depth ≤ d) = (dequeued ⟨D, threshold⟩ w).filter (·.depth ≤ d) ∧
    ((walk ⟨d, threshold⟩ w).stats.truncated = true ↔ ∃ t ∈ dequeued ⟨D, threshold⟩ w, d < t.depth) := by
  obtain ⟨near, v, hv⟩ := exists_comesBy threshold d h
  obtain ⟨new, hnew, hnear⟩ := hv.carried
  obtain ⟨hd', htruncated⟩ := walk_of_deep threshold hv.waiting
  have hdeep (m : Nat) : ∀ t ∈ dequeued ⟨m, threshold⟩ v, d < t.depth := deep_dequeued _ hv.waiting
  have hnone (m : Nat) : (dequeued ⟨m, threshold⟩ v).filter (·.depth ≤ d) = [] := by
    refine List.filter_eq_nil_iff.2 fun t ht => ?_
    simpa using hdeep m t ht
  rw [hv.walk_eq d (Nat.le_refl d), hv.walk_eq D hd, hd', hv.dequeued_eq d (Nat.le_refl d), hv.dequeued_eq D hd]
  refine ⟨deep_walk _ hv.waiting, ?_, ?_, ?_⟩
  · rwa [hnew, hout, List.append_nil]
  · rw [List.filter_append, List.filter_append, hnone, hnone]
  · rw [htruncated, hv.truncated, hn, ← dequeued_ne_nil_iff ⟨D, threshold⟩]
    constructor
    · intro hq
      obtain ⟨t, ht⟩ := List.exists_mem_of_ne_nil _ (hq.resolve_left Bool.false_ne_true)
      exact ⟨t, List.mem_append_right near ht, hdeep D t ht⟩
    · rintro ⟨t, ht, hlt⟩
      refine .inr fun hnil => ?_
      rw [hnil, List.append_nil] at ht
      exact absurd (hv.taken t ht) (Nat.not_le.2 hlt)

/-! ## Values that stay inside their carriers -/

/-- All that a call under way holds, carries and has carried lies inside the carriers of its contacts. -/
structure Walk.Inside (w : Walk) (carrier : ContactId → Json → Prop) : Prop where
  store : w.store.Inside carrier
  waiting : ∀ t ∈ w.queue, carrier t.target t.value
  carried : ∀ t ∈ w.carriedOut, carrier t.target t.value

variable {carrier : ContactId → Json → Prop}

theorem inside_tasksFrom {s : ContactStore} (h : s.Inside carrier) {id : ContactId} {x : Json}
    (hx : s.value id = .ok x) (depth : Nat) : ∀ t ∈ tasksFrom s id x depth, carrier t.target t.value := by
  obtain ⟨c, hc, rfl⟩ := ContactStore.value_eq_ok.1 hx
  intro t ht
  obtain ⟨b, hb, rfl⟩ := List.mem_map.1 ht
  exact h.flows id b hb c.value (h.lawful id c hc).2

theorem Walk.Inside.carryOut (h : w.Inside carrier) (ht : carrier t.target t.value) :
    (carryOut w t).Inside carrier := by
  have hcarried : ∀ x ∈ (Propagation.carryOut w t).carriedOut, carrier x.target x.value := by
    rw [(carryOut_writes w t).2]
    exact List.forall_mem_cons.2 ⟨ht, h.carried⟩
  rcases carryOut_cases w t with ⟨_, -, hs, hq, -⟩ | ⟨_, -, hs, hq, -⟩ | ⟨s, x, hu, hx, hs, hq, -⟩
  · exact ⟨hs ▸ h.store, hq ▸ h.waiting, hcarried⟩
  · exact ⟨hs ▸ h.store, hq ▸ h.waiting, hcarried⟩
  · have hstore := h.store.update ht hu
    refine ⟨hs ▸ hstore, fun y hy => ?_, hcarried⟩
    rw [hq] at hy
    rcases List.mem_append.1 hy with hy | hy
    · exact h.waiting y hy
    · exact inside_tasksFrom hstore hx _ y (List.mem_of_mem_filter hy)

theorem Walk.Inside.walk (limits : PropagationLimits) (h : w.Inside carrier) : (walk limits w).Inside carrier := by
  refine walk_keeps (P := fun w => w.Inside carrier) (fun w t rest hq h => ?_)
    (fun w h => ⟨h.store, List.forall_mem_nil _, h.carried⟩) h
  have hrest : ({ w with queue := rest } : Walk).Inside carrier :=
    { h with waiting := fun x hx => h.waiting x (hq ▸ List.mem_cons_of_mem t hx) }
  rw [takeUp_eq]
  split
  · exact hrest
  · split
    · exact ⟨hrest.store, hrest.waiting, hrest.carried⟩
    · have hnoted : (Walk.noteVisit { w with queue := rest } t.target).Inside carrier :=
        ⟨hrest.store, hrest.waiting, hrest.carried⟩
      exact hnoted.carryOut (h.waiting t (hq ▸ List.mem_cons_self))

theorem inside_start {s : ContactStore} (h : s.Inside carrier) {source : ContactId} {current : Json}
    (hcurrent : s.value source = .ok current) (changed : Bool) : (start s source current changed).Inside carrier := by
  refine ⟨h, fun t ht => ?_, List.forall_mem_nil _⟩
  simp only [start] at ht
  split at ht
  · cases ht
  · exact inside_tasksFrom h hcurrent 1 t ht

end Propagation

namespace Engine

open Propagation

/-- The engine with a limit of depth of its own. -/
def upTo (e : Engine) (depth : Nat) : Engine := { e with limits := { e.limits with maxDepth := depth } }

/-- A call when its source has been written, if the source took the value. -/
def begun (e : Engine) (source : ContactId) (v : Json) : Option Walk :=
  match e.store.update source v with
  | .error _ => none
  | .ok (store, changed) =>
    match store.value source with
    | .error _ => none
    | .ok current => some (start store source current changed)

/-- The tasks that a call carries out, in order. -/
def carried (e : Engine) (source : ContactId) (v : Json) : List Task :=
  (e.begun source v).elim [] fun w => (walk e.limits w).carriedOut.reverse

/-- The tasks that a call takes from its queue, in order. -/
def dequeued (e : Engine) (source : ContactId) (v : Json) : List Task :=
  (e.begun source v).elim [] (Propagation.dequeued e.limits)

variable {e e' : Engine} {source : ContactId} {v : Json} {w : Walk} {stats : PropagationStats}

theorem begun_upTo (e : Engine) (m : Nat) : (e.upTo m).begun source v = e.begun source v := rfl

theorem begun_eq_some (h : e.begun source v = some w) :
    ∃ store changed current, e.store.update source v = .ok (store, changed) ∧ store.value source = .ok current ∧
      w = start store source current changed := by
  unfold begun at h
  split at h
  · cases h
  · next store changed hu =>
    split at h
    · cases h
    · next current hcurrent => exact ⟨store, changed, current, hu, hcurrent, (Option.some.inj h).symm⟩

theorem begun_of_propagate (h : e.propagate source v = .ok (e', stats)) :
    ∃ w, e.begun source v = some w ∧ stats = (walk e.limits w).stats ∧ e'.store = (walk e.limits w).store := by
  obtain ⟨store, changed, current, hu, hcurrent, rfl, rfl⟩ := propagate_cases h
  exact ⟨start store source current changed, by simp only [begun, hu, hcurrent], rfl, rfl⟩

/-- What a call writes is what its source is given and what its tasks bring. -/
theorem store_of_carried (h : e.propagate source v = .ok (e', stats)) :
    e'.store = e.store.writeAll ((source, v) :: (e.carried source v).map fun t => (t.target, t.value)) := by
  obtain ⟨w, hw, -, hstore⟩ := begun_of_propagate h
  obtain ⟨store, changed, current, hu, -, rfl⟩ := begun_eq_some hw
  rw [hstore, carried, hw, ContactStore.writeAll, List.foldl_cons, ContactStore.write_of_update hu]
  exact store_walk e.limits rfl

theorem inside_carried {carrier : ContactId → Json → Prop} (h : e.store.Inside carrier) (hv : carrier source v) :
    ∀ t ∈ e.carried source v, carrier t.target t.value := by
  intro t ht
  cases hb : e.begun source v with
  | none =>
    rw [carried, hb] at ht
    cases ht
  | some w =>
    obtain ⟨store, changed, current, hu, hcurrent, rfl⟩ := begun_eq_some hb
    rw [carried, hb] at ht
    exact ((inside_start (h.update hv hu) hcurrent changed).walk e.limits).carried t (List.mem_reverse.1 ht)

/-- With a lower limit of depth a call does the first part of what it does with a higher one. It carries out the same
tasks down to its limit and loses none of them, it is cut short just where the other one takes up a task that is deeper,
and it leaves every contact of a lawful lattice below what the other one leaves there. -/
theorem propagate_prefix (e : Engine) (source : ContactId) (v : Json) {d D : Nat} (hd : d ≤ D) :
    (∃ cause, ∀ m, (e.upTo m).propagate source v = .error cause) ∨
    ∃ near far sd sD, (e.upTo d).propagate source v = .ok (near, sd) ∧
      (e.upTo D).propagate source v = .ok (far, sD) ∧
      near.store = e.store.writeAll
        ((source, v) :: ((e.upTo d).carried source v).map fun t => (t.target, t.value)) ∧
      far.store = e.store.writeAll
        ((source, v) :: ((e.upTo D).carried source v).map fun t => (t.target, t.value)) ∧
      (e.upTo d).carried source v <+: (e.upTo D).carried source v ∧
      (e.upTo d).carried source v = ((e.upTo D).carried source v).filter (·.depth ≤ d) ∧
      ((e.upTo d).dequeued source v).filter (·.depth ≤ d) =
        ((e.upTo D).dequeued source v).filter (·.depth ≤ d) ∧
      (sd.truncated = true ↔ ∃ t ∈ (e.upTo D).dequeued source v, d < t.depth) ∧
      (∀ id c carrier, e.store.contacts.get? id = some c → c.lattice.Orderly carrier → carrier c.value →
        near.store.BelowAt far.store id) ∧
      ∀ carrier, e.store.Inside carrier → carrier source v →
        ∀ id c, e.store.contacts.get? id = some c → near.store.BelowAt far.store id := by
  cases hu : e.store.update source v with
  | error cause =>
    refine .inl ⟨cause, fun m => ?_⟩
    simp only [propagate, upTo, hu, bind, Except.bind]
  | ok p =>
    obtain ⟨⟨near, sd⟩, hnear⟩ := exists_propagate (e := e.upTo d) hu
    obtain ⟨⟨far, sD⟩, hfar⟩ := exists_propagate (e := e.upTo D) hu
    obtain ⟨w, hw, hsd, -⟩ := begun_of_propagate hnear
    rw [begun_upTo] at hw
    obtain ⟨_, _, _, -, -, hstart⟩ := begun_eq_some hw
    obtain ⟨⟨deeper, hwalk, hdeeper⟩, hdepth, hdequeued, htruncated⟩ :=
      walk_prefix (w := w) e.limits.cycleThreshold (hstart ▸ layered_start ..) (hstart ▸ rfl)
        (hstart ▸ rfl) hd
    have hcarried (m : Nat) : (e.upTo m).carried source v =
        (walk ⟨m, e.limits.cycleThreshold⟩ w).carriedOut.reverse := by
      rw [carried, begun_upTo, hw]
      rfl
    have htaken (m : Nat) : (e.upTo m).dequeued source v = Propagation.dequeued ⟨m, e.limits.cycleThreshold⟩ w := by
      rw [dequeued, begun_upTo, hw]
      rfl
    have happend : (e.upTo D).carried source v = (e.upTo d).carried source v ++ deeper.reverse := by
      rw [hcarried, hcarried, hwalk, List.reverse_append]
    have hnearStore := store_of_carried hnear
    have hfarStore := store_of_carried hfar
    refine .inr ⟨near, far, sd, sD, hnear, hfar, hnearStore, hfarStore, ⟨_, happend.symm⟩, ?_, ?_, ?_, ?_, ?_⟩
    · have hnone : deeper.reverse.filter (·.depth ≤ d) = [] := by
        refine List.filter_eq_nil_iff.2 fun t ht => ?_
        simpa using hdeeper t (List.mem_reverse.1 ht)
      rw [happend, List.filter_append, hnone, List.append_nil, eq_comm, List.filter_eq_self]
      intro t ht
      rw [hcarried] at ht
      exact decide_eq_true (hdepth t (List.mem_reverse.1 ht))
    · rw [htaken, htaken, hdequeued]
    · rw [hsd, htaken]
      exact htruncated
    · intro id c carrier hc hl hcv
      rw [hnearStore, hfarStore, happend, List.map_append, ← List.cons_append]
      exact ContactStore.belowAt_of_orderly hl hc hcv _ _
    · intro carrier hin hv id c hc
      have hwrites : ∀ p ∈ (source, v) :: ((e.upTo D).carried source v).map fun t => (t.target, t.value),
          carrier p.1 p.2 := by
        refine List.forall_mem_cons.2 ⟨hv, List.forall_mem_map.2 ?_⟩
        exact inside_carried (e := e.upTo D) hin hv
      rw [happend, List.map_append, ← List.cons_append] at hwrites
      rw [hnearStore, hfarStore, happend, List.map_append, ← List.cons_append]
      obtain ⟨hl, hcv⟩ := hin.lawful id c hc
      exact ContactStore.belowAt_of_lawful hl hc hcv fun p hp hid => hid ▸ hwrites p hp

/-- With no depth at all the value stays where it was written, below what a deeper call brings. -/
theorem propagate_prefix_loop :
    0 ≤ 5 ∧ ∃ near far sd sD, (loop.upTo 0).propagate "a" (.bool true) = .ok (near, sd) ∧
      (loop.upTo 5).propagate "a" (.bool true) = .ok (far, sD) ∧ sd.truncated = true ∧
      ((loop.upTo 5).carried "a" (.bool true)).map (·.target) = ["b"] ∧
      (loop.upTo 0).carried "a" (.bool true) <+: (loop.upTo 5).carried "a" (.bool true) ∧
      near.store.BelowAt far.store "b" := by
  have htaken : ((loop.upTo 5).dequeued "a" (.bool true)).map (·.depth) = [1] := by cbv
  have hcarried : ((loop.upTo 5).carried "a" (.bool true)).map (·.target) = ["b"] := by cbv
  have hb : loop.store.contacts.get? "b" = some { id := "b", lattice := .disjunction, value := .null } := rfl
  rcases propagate_prefix loop "a" (.bool true) (Nat.zero_le 5) with
    ⟨cause, hcause⟩ | ⟨near, far, sd, sD, hnear, hfar, -, -, hprefix, -, -, htruncated, hbelow, -⟩
  · have hrun : ((loop.upTo 0).propagate "a" (.bool true)).isOk = true := by cbv
    rw [hcause 0] at hrun
    cases hrun
  · have hdeep : 1 ∈ ((loop.upTo 5).dequeued "a" (.bool true)).map (·.depth) := htaken ▸ List.mem_cons_self
    obtain ⟨t, ht, hdepth⟩ := List.mem_map.1 hdeep
    refine ⟨Nat.zero_le 5, near, far, sd, sD, hnear, hfar, htruncated.2 ⟨t, ht, hdepth ▸ Nat.one_pos⟩, hcarried,
      hprefix, hbelow "b" _ _ hb Lattice.disjunction_orderly (.inl rfl)⟩

end Engine

end Patchbay
