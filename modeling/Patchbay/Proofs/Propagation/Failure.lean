import Patchbay.Lattice.Builtin
import Patchbay.Proofs.Propagation.Walk

/-! How calls fail. Wherever a call looks something up it could end early, with a store that is changed in part and
totals that know nothing of it. Told with all these ends a call still has two only: it is refused by its source and
leaves everything as it was, or it is carried through and recorded. -/

namespace Patchbay

namespace Propagation

/-! ## Calls that may break off -/

/-- A call that has ended before its time: the store as far as it has come, and why. -/
structure Abort where
  store : ContactStore
  cause : ContactError

/-- Carries a task out, as `carryOut` does, but breaks the call off where the new value of the target is not found. -/
def carryOutOrAbort (w : Walk) (t : Task) : Except Abort Walk :=
  let stats := { w.stats with
    tasksProcessed := w.stats.tasksProcessed + 1
    propagationDepth := max w.stats.propagationDepth t.depth }
  let w := { w with carriedOut := t :: w.carriedOut }
  match w.store.update t.target t.value with
  | .error _ => .ok { w with stats := { stats with rejected := stats.rejected + 1 } }
  | .ok (_, false) => .ok { w with stats }
  | .ok (store, true) =>
    match store.value t.target with
    | .error cause => .error ⟨store, cause⟩
    | .ok value => .ok { w with
        store
        queue := w.queue ++ (tasksFrom store t.target value (t.depth + 1)).filter fun x => x.target ≠ t.source
        stats := { stats with valuesChanged := stats.valuesChanged + 1 } }

def takeUpOrAbort (threshold : Nat) (w : Walk) (t : Task) : Except Abort Walk :=
  if w.cyclic.contains t.target then .ok w
  else
    let seen := w.visits.getD t.target 0 + 1
    let w := { w with visits := w.visits.insert t.target seen }
    if threshold < seen then
      .ok { w with
        cyclic := w.cyclic.add t.target
        stats := { w.stats with cyclesDetected := w.stats.cyclesDetected + 1 } }
    else carryOutOrAbort w t

/-- A target that took a value has one to pass on, whatever the connections. -/
theorem carryOutOrAbort_eq (w : Walk) (t : Task) : carryOutOrAbort w t = .ok (carryOut w t) := by
  simp only [carryOutOrAbort, carryOut]
  cases hu : w.store.update t.target t.value with
  | error e => rfl
  | ok p =>
    obtain ⟨store, changed⟩ := p
    cases changed with
    | false => rfl
    | true =>
      obtain ⟨current, hc⟩ := ContactStore.exists_value_of_update hu
      simp only [hc]

theorem takeUpOrAbort_eq (threshold : Nat) (w : Walk) (t : Task) :
    takeUpOrAbort threshold w t = .ok (takeUp threshold w t) := by
  simp only [takeUpOrAbort, takeUp]
  split
  · rfl
  · split
    · rfl
    · exact carryOutOrAbort_eq _ t

/-- Takes up tasks until none is left, or until one of them breaks the call off. -/
def walkOrAbort (limits : PropagationLimits) (w : Walk) : Except Abort Walk :=
  match _h : w.queue with
  | [] => .ok w
  | t :: rest =>
    if limits.maxDepth < t.depth then .ok w.cut
    else
      match _hw : takeUpOrAbort limits.cycleThreshold { w with queue := rest } t with
      | .error abort => .error abort
      | .ok w' => walkOrAbort limits w'
termination_by (w.credit limits.cycleThreshold, w.queue.length)
decreasing_by
  obtain rfl := Except.ok.inj ((takeUpOrAbort_eq ..).symm.trans _hw)
  rcases takeUp_decreases limits.cycleThreshold { w with queue := rest } t with hlt | ⟨hle, hq⟩
  · exact Prod.Lex.left _ _ hlt
  · rcases Nat.lt_or_eq_of_le hle with hlt | heq
    · exact Prod.Lex.left _ _ hlt
    · rw [heq, hq]
      refine Prod.Lex.right _ ?_
      simp [_h]

theorem walkOrAbort_eq (limits : PropagationLimits) (w : Walk) : walkOrAbort limits w = .ok (walk limits w) := by
  induction w using walk.induct limits with
  | case1 w hq =>
    rw [walk_of_nil hq, walkOrAbort]
    split
    · rfl
    · next hcons => cases hq.symm.trans hcons
  | case2 w t rest hq hd =>
    rw [walk_of_cons hq, if_pos hd, walkOrAbort]
    split
    · next hnil => cases hq.symm.trans hnil
    · next hcons =>
      cases hq.symm.trans hcons
      rw [if_pos hd]
  | case3 w t rest hq hd ih =>
    rw [walk_of_cons hq, if_neg hd, walkOrAbort]
    split
    · next hnil => cases hq.symm.trans hnil
    · next hcons =>
      cases hq.symm.trans hcons
      rw [if_neg hd]
      split
      · next hw => cases (takeUpOrAbort_eq ..).symm.trans hw
      · next hw =>
        obtain rfl := Except.ok.inj ((takeUpOrAbort_eq ..).symm.trans hw)
        exact ih

end Propagation

/-! ## What is refused -/

/-- A contact refuses a value if it is not there, or if its lattice does not join the value into what it holds. -/
inductive ContactStore.Refuses (s : ContactStore) (id : ContactId) (v : Json) : ContactError → Prop
  | unregistered (h : s.contacts.get? id = none) : Refuses s id v (.notFound id)
  | unjoinable {c : Contact} {cause : LatticeError} (hc : s.contacts.get? id = some c)
    (hj : c.lattice.join c.value v = .error cause) : Refuses s id v (.lattice id cause)

theorem ContactStore.update_eq_error_iff {s : ContactStore} {id : ContactId} {v : Json} {cause : ContactError} :
    s.update id v = .error cause ↔ s.Refuses id v cause := by
  constructor
  · intro h
    cases hc : s.contacts.get? id with
    | none =>
      simp only [update, contact, hc, bind, Except.bind] at h
      cases h
      exact .unregistered hc
    | some c =>
      cases hj : c.lattice.join c.value v with
      | error e =>
        simp only [update, contact, hc, hj, bind, Except.bind, Except.mapError] at h
        cases h
        exact .unjoinable hc hj
      | ok joined =>
        obtain ⟨p, hp⟩ := exists_update hc hj
        cases hp.symm.trans h
  · rintro (hc | ⟨hc, hj⟩)
    · simp only [update, contact, hc, bind, Except.bind]
    · simp only [update, contact, hc, hj, bind, Except.bind, Except.mapError]

/-! ## Sums of what calls did -/

namespace PropagationStats

theorem absorb_empty (a : PropagationStats) : a.absorb {} = a := by
  simp [absorb]

theorem empty_absorb (a : PropagationStats) : absorb {} a = a := by
  simp [absorb]

theorem absorb_assoc (a b c : PropagationStats) : (a.absorb b).absorb c = a.absorb (b.absorb c) := by
  simp [absorb, Nat.add_assoc, Nat.max_assoc, Bool.or_assoc]

theorem foldl_absorb (a : PropagationStats) (l : List PropagationStats) :
    l.foldl absorb a = a.absorb (l.foldl absorb {}) := by
  induction l generalizing a with
  | nil => exact a.absorb_empty.symm
  | cons b rest ih => rw [List.foldl_cons, List.foldl_cons, ih, ih (absorb {} b), empty_absorb, absorb_assoc]

end PropagationStats

namespace Engine

variable {e e' e'' : Engine} {source : ContactId} {v : Json} {stats : PropagationStats} {cause : ContactError}
  {updates done more : List (ContactId × Json)} {each : List PropagationStats}

theorem propagate_eq_error_iff : e.propagate source v = .error cause ↔ e.store.Refuses source v cause := by
  rw [← ContactStore.update_eq_error_iff]
  refine ⟨update_of_refused, fun hu => ?_⟩
  simp only [propagate, hu, bind, Except.bind]

/-- A call with what it leaves behind when it fails: what has been written by then stays written, and nothing is
recorded. -/
def attempt (e : Engine) (source : ContactId) (value : Json) : Engine × Except ContactError PropagationStats :=
  match e.store.update source value with
  | .error cause => (e, .error cause)
  | .ok (store, changed) =>
    match store.value source with
    | .error cause => ({ e with store }, .error cause)
    | .ok current =>
      match Propagation.walkOrAbort e.limits (Propagation.start store source current changed) with
      | .error abort => ({ e with store := abort.store }, .error abort.cause)
      | .ok w => ({ e with store := w.store, totals := e.totals.record w.stats }, .ok w.stats)

/-- One call after the other, each adding to the stats so far, up to the first that fails. -/
def attemptAll (e : Engine) (total : PropagationStats) :
    List (ContactId × Json) → Engine × Except ContactError PropagationStats
  | [] => (e, .ok total)
  | (source, value) :: rest =>
    match e.attempt source value with
    | (e, .error cause) => (e, .error cause)
    | (e, .ok stats) => e.attemptAll (total.absorb stats) rest

theorem attempt_of_ok (h : e.propagate source v = .ok (e', stats)) : e.attempt source v = (e', .ok stats) := by
  obtain ⟨store, changed, current, hu, hc, rfl, rfl⟩ := propagate_cases h
  simp only [attempt, hu, hc, Propagation.walkOrAbort_eq]

/-- Nothing fails once the source has taken the value. -/
theorem attempt_of_error (h : e.propagate source v = .error cause) : e.attempt source v = (e, .error cause) := by
  simp only [attempt, update_of_refused h]

theorem attempt_eq_error_iff : e.attempt source v = (e', .error cause) ↔ e' = e ∧ e.store.Refuses source v cause := by
  rw [← propagate_eq_error_iff]
  cases h : e.propagate source v with
  | error _ => simp [attempt_of_error h, eq_comm]
  | ok p =>
    obtain ⟨e₁, each⟩ := p
    simp [attempt_of_ok h]

theorem attempt_eq_ok_iff : e.attempt source v = (e', .ok stats) ↔ e.propagate source v = .ok (e', stats) := by
  cases h : e.propagate source v with
  | error _ => simp [attempt_of_error h]
  | ok p =>
    obtain ⟨e₁, each⟩ := p
    simp [attempt_of_ok h, Prod.ext_iff]

/-! ## Calls in a row -/

theorem attemptAll_eq (e : Engine) (total : PropagationStats) (updates : List (ContactId × Json)) :
    e.attemptAll total updates = ((e.propagateAll updates).1, (e.propagateAll updates).2.map total.absorb) := by
  induction updates generalizing e total with
  | nil => simp [attemptAll, propagateAll, Except.map, PropagationStats.absorb_empty]
  | cons u rest ih =>
    cases h : e.propagate u.1 u.2 with
    | error cause => simp [attemptAll, propagateAll, attempt_of_error h, h, Except.map]
    | ok p =>
      obtain ⟨e', stats⟩ := p
      simp only [attemptAll, propagateAll, attempt_of_ok h, h, ih]
      cases (e'.propagateAll rest).2 <;> simp [Except.map, PropagationStats.absorb_assoc]

/-- Calls in a row that all succeed, what each of them did, and the engine after the last. -/
inductive Succeeds : Engine → List (ContactId × Json) → List PropagationStats → Engine → Prop
  | nil {e : Engine} : Succeeds e [] [] e
  | cons {e e' e'' : Engine} {source : ContactId} {v : Json} {stats : PropagationStats}
    {rest : List (ContactId × Json)} {each : List PropagationStats} (h : e.propagate source v = .ok (e', stats))
    (hrest : Succeeds e' rest each e'') : Succeeds e ((source, v) :: rest) (stats :: each) e''

namespace Succeeds

theorem totals_eq (h : Succeeds e done each e') :
    e'.limits = e.limits ∧ e'.totals = each.foldl PropagationTotals.record e.totals := by
  induction h with
  | nil => exact ⟨rfl, rfl⟩
  | cons h _ ih =>
    obtain ⟨_, _, _, -, -, rfl, -⟩ := propagate_cases h
    exact ih

/-- Where the next call fails, no more of the calls succeed. -/
theorem longest (h : Succeeds e done each e') {u : ContactId × Json} (hnext : done ++ [u] <+: updates)
    (hu : e'.store.Refuses u.1 u.2 cause) {each' : List PropagationStats} (hmore : more <+: updates)
    (h' : Succeeds e more each' e'') : more <+: done := by
  induction h generalizing updates more each' with
  | nil =>
    cases h' with
    | nil => exact List.prefix_rfl
    | cons hok _ =>
      obtain ⟨_, rfl⟩ := hnext
      obtain ⟨rfl, -⟩ := List.cons_prefix_cons.1 hmore
      cases (propagate_eq_error_iff.2 hu).symm.trans hok
  | cons hfirst _ ih =>
    cases h' with
    | nil => exact List.nil_prefix
    | cons hok hrest =>
      obtain ⟨_, rfl⟩ := hnext
      obtain ⟨he, htail⟩ := List.cons_prefix_cons.1 hmore
      cases he
      cases hfirst.symm.trans hok
      exact List.cons_prefix_cons.2 ⟨rfl, ih ⟨_, rfl⟩ hu htail hrest⟩

end Succeeds

/-- Calls in a row get as far as they succeed, and come to what one after the other would have come to by then. -/
theorem propagateAll_cases (e : Engine) (updates : List (ContactId × Json)) :
    ∃ done each e', Succeeds e done each e' ∧
      ((done = updates ∧ e.propagateAll updates = (e', .ok (each.foldl .absorb {}))) ∨
        ∃ u cause, done ++ [u] <+: updates ∧ e'.store.Refuses u.1 u.2 cause ∧
          e.propagateAll updates = (e', .error cause)) := by
  induction updates generalizing e with
  | nil => exact ⟨[], [], e, .nil, .inl ⟨rfl, rfl⟩⟩
  | cons u rest ih =>
    cases h : e.propagate u.1 u.2 with
    | error cause =>
      refine ⟨[], [], e, .nil, .inr ⟨u, cause, ⟨rest, rfl⟩, propagate_eq_error_iff.1 h, ?_⟩⟩
      simp only [propagateAll, h]
    | ok p =>
      obtain ⟨e₁, stats⟩ := p
      obtain ⟨done, each, e', hdone, ⟨rfl, hall⟩ | ⟨u', cause, hnext, hu, hall⟩⟩ := ih e₁
      · refine ⟨_, _, e', .cons h hdone, .inl ⟨rfl, ?_⟩⟩
        rw [List.foldl_cons, PropagationStats.empty_absorb, PropagationStats.foldl_absorb stats]
        simp only [propagateAll, h, hall, Except.map]
      · refine ⟨_, _, e', .cons h hdone, .inr ⟨u', cause, List.cons_prefix_cons.2 ⟨rfl, hnext⟩, hu, ?_⟩⟩
        simp only [propagateAll, h, hall, Except.map]

/-- A call fails just where its source refuses the value, and leaves the engine as it was. A call that succeeds is
recorded as what it says it did. Calls in a row stop at the first that fails, with all that went before it done. -/
theorem propagate_settles (e : Engine) :
    (∀ source v,
      (∀ cause, e.propagate source v = .error cause ↔ e.store.Refuses source v cause) ∧
      (∀ e' cause, e.attempt source v = (e', .error cause) ↔ e' = e ∧ e.store.Refuses source v cause) ∧
      (∀ e' stats, e.attempt source v = (e', .ok stats) ↔ e.propagate source v = .ok (e', stats)) ∧
      ∀ e' stats, e.propagate source v = .ok (e', stats) → e'.limits = e.limits ∧ e'.totals =
        { calls := e.totals.calls + 1
          tasksProcessed := e.totals.tasksProcessed + stats.tasksProcessed
          valuesChanged := e.totals.valuesChanged + stats.valuesChanged
          cyclesDetected := e.totals.cyclesDetected + stats.cyclesDetected
          rejected := e.totals.rejected + stats.rejected
          truncations := e.totals.truncations + if stats.truncated then 1 else 0
          maxDepthSeen := max e.totals.maxDepthSeen stats.propagationDepth }) ∧
    ∀ updates, e.attemptAll {} updates = e.propagateAll updates ∧ ∃ done each e', done <+: updates ∧
      Succeeds e done each e' ∧ e'.totals = each.foldl PropagationTotals.record e.totals ∧
      (∀ more each' e'', more <+: updates → Succeeds e more each' e'' → more <+: done) ∧
      ((done = updates ∧ e.propagateAll updates = (e', .ok (each.foldl .absorb {}))) ∨
        ∃ u cause, done ++ [u] <+: updates ∧ e'.store.Refuses u.1 u.2 cause ∧
          e.propagateAll updates = (e', .error cause)) := by
  refine ⟨fun source v => ⟨fun _ => propagate_eq_error_iff, fun _ _ => attempt_eq_error_iff,
    fun _ _ => attempt_eq_ok_iff, fun e' stats h => ?_⟩, fun updates => ⟨?_, ?_⟩⟩
  · obtain ⟨_, _, _, -, -, rfl, -⟩ := propagate_cases h
    exact ⟨rfl, rfl⟩
  · rw [attemptAll_eq]
    cases h : (e.propagateAll updates).2 <;> simp [Except.map, PropagationStats.empty_absorb, Prod.ext_iff, h]
  · obtain ⟨done, each, e', hdone, hend⟩ := e.propagateAll_cases updates
    have hprefix : done <+: updates := by
      rcases hend with ⟨rfl, -⟩ | ⟨u, _, hnext, -⟩
      · exact List.prefix_rfl
      · exact (List.prefix_append done [u]).trans hnext
    refine ⟨done, each, e', hprefix, hdone, hdone.totals_eq.2, fun more each' e'' hmore h' => ?_, hend⟩
    rcases hend with ⟨rfl, -⟩ | ⟨u, cause, hnext, hu, -⟩
    · exact hmore
    · exact hdone.longest hnext hu hmore h'

/-- A flag takes a value, and a contact that is not there takes none. -/
theorem propagate_settles_flag :
    let e : Engine := { store := { contacts := .singleton "a" { id := "a", lattice := .disjunction, value := .null } } }
    ∃ e' stats, e.propagate "a" (.bool true) = .ok (e', stats) ∧ e'.totals.calls = 1 ∧
      e.attempt "b" (.bool true) = (e, .error (.notFound "b")) ∧
      e.propagateAll [("a", .bool true), ("b", .bool true)] = (e', .error (.notFound "b")) := by
  intro e
  obtain ⟨p, hp⟩ : ∃ p, e.store.update "a" (.bool true) = .ok p := ContactStore.exists_update rfl rfl
  obtain ⟨⟨e', stats⟩, hok⟩ := exists_propagate hp
  obtain ⟨-, -, -, hrecorded⟩ := (propagate_settles e).1 "a" (.bool true)
  obtain ⟨-, hrefused, -⟩ := (propagate_settles e).1 "b" (.bool true)
  have hb : e'.store.contacts.get? "b" = none :=
    Dict.contains_eq_false_iff.1 ((advances_propagate hok).contains_eq "b")
  have hlate := ((propagate_settles e').1 "b" (.bool true)).1 (.notFound "b")
  refine ⟨e', stats, hok, ?_, (hrefused e _).2 ⟨rfl, .unregistered rfl⟩, ?_⟩
  · rw [(hrecorded e' stats hok).2]
  · simp only [propagateAll, hok, hlate.2 (.unregistered hb), Except.map]

end Engine

end Patchbay
