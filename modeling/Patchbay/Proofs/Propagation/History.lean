import Patchbay.Proofs.Contact.Chronicle
import Patchbay.Proofs.Propagation.Walk
import Mathlib.Data.List.Permutation

/-! The history of an engine: the changes that its calls make, and who is told of them. All that a propagation call does
to the store is to write to the source and then carry tasks out, so that its changes are those of these writes. -/

namespace Patchbay

namespace Propagation

/-- What has been written in a walk, oldest first. -/
def Walk.written (w : Walk) : List (ContactId × Json) := w.carriedOut.reverse.map fun t => (t.target, t.value)

theorem carryOut_writes (w : Walk) (t : Task) :
    (carryOut w t).store = w.store.write (t.target, t.value) ∧ (carryOut w t).carriedOut = t :: w.carriedOut := by
  cases hu : w.store.update t.target t.value with
  | error e =>
    rw [ContactStore.write_of_refused hu]
    simp only [carryOut, hu, and_self]
  | ok p =>
    obtain ⟨s, changed⟩ := p
    rw [ContactStore.write_of_update hu]
    cases changed with
    | false =>
      have hs : s = w.store := by
        obtain ⟨_, _, -, -, ⟨-, -, hs⟩ | ⟨-, hc, -⟩⟩ := ContactStore.update_cases hu
        · exact hs
        · cases hc
      rw [hs]
      simp only [carryOut, hu, and_self]
    | true => simp only [carryOut, hu, and_self]

theorem store_walk (limits : PropagationLimits) {s : ContactStore} {w : Walk} (h : w.store = s.writeAll w.written) :
    (walk limits w).store = s.writeAll (walk limits w).written := by
  refine walk_keeps (P := fun w => w.store = s.writeAll w.written) (fun w t rest _ hw => ?_) (fun _ hw => hw) h
  unfold takeUp
  split
  · exact hw
  · simp only
    split
    · exact hw
    · obtain ⟨hs, hc⟩ := carryOut_writes
        { w with queue := rest, visits := w.visits.insert t.target (w.visits.getD t.target 0 + 1) } t
      rw [hs, Walk.written, hc, List.reverse_cons, List.map_append, ContactStore.writeAll, List.foldl_append]
      exact congrArg (fun s : ContactStore => s.write (t.target, t.value)) hw

/-- One task for a contact that passes nothing on. -/
theorem store_walk_of_singleton {limits : PropagationLimits} {w : Walk} {t : Task} (hq : w.queue = [t])
    (hd : t.depth ≤ limits.maxDepth) (ht : 1 ≤ limits.cycleThreshold) (hfirst : ¬w.Marks t.target)
    (hend : w.store.downstream t.target = []) : (walk limits w).store = w.store.write (t.target, t.value) := by
  rw [walk_of_cons hq, if_neg (Nat.not_lt.2 hd)]
  obtain ⟨hmarked, -⟩ | htake := takeUp_cases ht { w with queue := [] } t
  · exact absurd hmarked hfirst
  rw [htake]
  generalize hv : ({ w with queue := [], visits := w.visits.insert t.target (w.visits.getD t.target 0 + 1) } : Walk) = v
  have hstore : v.store = w.store := hv ▸ rfl
  have hempty : v.queue = [] := hv ▸ rfl
  have hqueue : (carryOut v t).queue = [] := by
    obtain ⟨_, -, -, h, -⟩ | ⟨_, -, -, h, -⟩ | ⟨s, x, hu, -, -, h, -⟩ := carryOut_cases v t
    · rw [h, hempty]
    · rw [h, hempty]
    · have hnone : s.downstream t.target = [] := by
        rw [(ContactStore.Advances.of_update hu).toSameNetwork.downstream_eq, hstore, hend]
      rw [h, hempty, tasksFrom, hnone]
      rfl
  rw [walk_of_nil hqueue, (carryOut_writes v t).1, hstore]

end Propagation

namespace Engine

/-- What a propagation call writes, one value after the other. -/
def writes (e : Engine) (source : ContactId) (v : Json) : List (ContactId × Json) :=
  (source, v) ::
    match e.store.update source v with
    | .error _ => []
    | .ok (store, changed) =>
      match store.value source with
      | .error _ => []
      | .ok current => (Propagation.walk e.limits (Propagation.start store source current changed)).written

theorem store_propagate {e e' : Engine} {source : ContactId} {v : Json} {stats : PropagationStats}
    (h : e.propagate source v = .ok (e', stats)) : e'.store = e.store.writeAll (e.writes source v) := by
  obtain ⟨store, changed, current, hu, hc, rfl, -⟩ := propagate_cases h
  simp only [writes, hu, hc]
  rw [ContactStore.writeAll, List.foldl_cons, ContactStore.write_of_update hu]
  exact Propagation.store_walk e.limits rfl

/-- A call ends with the write where there is nothing to pass on, or nothing to pass it on to. -/
theorem store_of_propagate {e e' : Engine} {c : ContactId} {v : Json} {stats : PropagationStats}
    (hp : e.propagate c v = .ok (e', stats))
    (h : (e.store.write (c, v)).value c = .ok .null ∨ (e.store.write (c, v)).downstream c = []) :
    e'.store = e.store.write (c, v) := by
  obtain ⟨s, changed, current, hu, hcurrent, rfl, -⟩ := propagate_cases hp
  rw [ContactStore.write_of_update hu] at h ⊢
  have hqueue : (Propagation.start s c current changed).queue = [] := by
    rcases h with hnull | hdownstream
    · obtain rfl := Except.ok.inj (hcurrent.symm.trans hnull)
      rfl
    · simp [Propagation.start, Propagation.tasksFrom, hdownstream]
  show (Propagation.walk _ _).store = s
  rw [Propagation.walk_of_nil hqueue]
  rfl

/-- A call whose source has one contact to pass its value on to, which has none, is two writes. -/
theorem store_of_propagate_link {e e' : Engine} {a c : ContactId} {v x : Json} {stats : PropagationStats}
    (hp : e.propagate a v = .ok (e', stats)) (hd : 1 ≤ e.limits.maxDepth) (ht : 1 ≤ e.limits.cycleThreshold)
    (hto : e.store.downstream a = [c]) (hend : e.store.downstream c = [])
    (hx : (e.store.write (a, v)).value a = .ok x) (hnull : x.isNull = false) :
    e'.store = (e.store.write (a, v)).write (c, x) := by
  obtain ⟨s, changed, current, hu, hcurrent, rfl, -⟩ := propagate_cases hp
  rw [ContactStore.write_of_update hu] at hx ⊢
  cases hcurrent.symm.trans hx
  have hnet := (ContactStore.Advances.of_update hu).toSameNetwork
  have hqueue : (Propagation.start s a x changed).queue = [⟨a, c, x, 1⟩] := by
    simp only [Propagation.start, Propagation.tasksFrom, hnull, hnet.downstream_eq, hto]
    rfl
  have hfirst : ¬(Propagation.start s a x changed).Marks c := by
    rintro (h | h)
    · exact h rfl
    · cases h
  exact Propagation.store_walk_of_singleton hqueue hd ht hfirst ((hnet.downstream_eq c).trans hend)

/-! ## Calls -/

inductive Call where
  | store (call : StoreCall)
  | propagate (source : ContactId) (v : Json)

namespace Call

def perform (e : Engine) : Call → Except ContactError Engine
  | store call => (call.perform e.store).map fun store => { e with store }
  | propagate source v => (e.propagate source v).map (·.1)

def writes (e : Engine) : Call → List (ContactId × Json)
  | store call => call.writes
  | propagate source v => e.writes source v

def emitted (e : Engine) (call : Call) : List ContactChange := e.store.changes (call.writes e)

/-- What a call takes out of the inbox of a listener. -/
def taken (e : Engine) (l : Listener) : Call → List ContactChange
  | store call => call.taken e.store l
  | propagate .. => []

end Call

/-- A call is made. One that is refused has no effect. -/
def occur (e : Engine) (call : Call) : Engine :=
  match call.perform e with
  | .ok e' => e'
  | .error _ => e

def run : Engine → List Call → Engine
  | e, [] => e
  | e, call :: rest => run (e.occur call) rest

/-- The changes that are made in a run, in order. -/
def emissions : Engine → List Call → List ContactChange
  | _, [] => []
  | e, call :: rest => call.emitted e ++ emissions (e.occur call) rest

/-- What a listener is told in a run: each change once for every subscription that it has at the time. -/
def heard (l : Listener) : Engine → List Call → List ContactChange
  | _, [] => []
  | e, call :: rest =>
    (call.emitted e).flatMap (List.replicate (e.store.copies l)) ++ heard l (e.occur call) rest

/-- What is taken out of the inbox of a listener in a run. -/
def received (l : Listener) : Engine → List Call → List ContactChange
  | _, [] => []
  | e, call :: rest => call.taken e l ++ received l (e.occur call) rest

variable {e e' : Engine} {call : Call}

theorem Call.emitted_of_refused {cause : ContactError} (h : call.perform e = .error cause) :
    call.emitted e = [] ∧ ∀ l, call.taken e l = [] := by
  cases call with
  | propagate source v =>
    have hu : e.store.update source v = .error cause := by
      cases hp : e.propagate source v with
      | error _ =>
        simp only [perform, hp, Except.map] at h
        cases h
        exact update_of_refused hp
      | ok _ =>
        simp only [perform, hp, Except.map] at h
        cases h
    refine ⟨?_, fun _ => rfl⟩
    simp only [emitted, writes, Engine.writes, hu, ContactStore.changes, ContactStore.changeOf_of_refused hu]
    rfl
  | store call =>
    cases hs : call.perform e.store with
    | error _ => exact StoreCall.changes_of_refused hs
    | ok _ =>
      simp only [perform, hs, Except.map] at h
      cases h

theorem told_perform {l : Lattice} {carrier : Json → Prop} (hl : l.Orderly carrier) {first : Json}
    {news : List ContactChange} {c : Contact} {id : ContactId} (h : Told l carrier first news c)
    (hc : e.store.contacts.get? id = some c) (hp : call.perform e = .ok e') (hr : call ≠ .store (.remove id)) :
    ∃ c', e'.store.contacts.get? id = some c' ∧
      Told l carrier first (news ++ (call.emitted e).filter fun r => r.contact = id) c' := by
  cases call with
  | store call =>
    obtain ⟨s, hs, rfl⟩ := ok_of_map hp
    exact h.perform hl hc hs fun he => hr (he ▸ rfl)
  | propagate source v =>
    obtain ⟨⟨t, stats⟩, ht, rfl⟩ := ok_of_map hp
    rw [show t.store = _ from store_propagate ht]
    exact h.writeAll hl hc (e.writes source v)

theorem told_run {l : Lattice} {carrier : Json → Prop} (hl : l.Orderly carrier) {first : Json}
    {news : List ContactChange} {c : Contact} {id : ContactId} (h : Told l carrier first news c)
    (hc : e.store.contacts.get? id = some c) {calls : List Call} (hr : .store (.remove id) ∉ calls) :
    ∃ c', (e.run calls).store.contacts.get? id = some c' ∧
      Told l carrier first (news ++ (e.emissions calls).filter fun r => r.contact = id) c' := by
  induction calls generalizing e news c with
  | nil => exact ⟨c, hc, by simpa [emissions] using h⟩
  | cons call rest ih =>
    have hstep : ∃ c', (e.occur call).store.contacts.get? id = some c' ∧
        Told l carrier first (news ++ (call.emitted e).filter fun r => r.contact = id) c' := by
      unfold occur
      split
      · next e' hp => exact told_perform hl h hc hp fun he => hr (he ▸ List.mem_cons_self)
      · next cause hp => exact ⟨c, hc, by simpa [(Call.emitted_of_refused hp).1] using h⟩
    obtain ⟨c', hc', h'⟩ := hstep
    obtain ⟨c'', hc'', h''⟩ := ih h' hc' fun hm => hr (List.mem_cons_of_mem call hm)
    rw [List.append_assoc, ← List.filter_append] at h''
    exact ⟨c'', hc'', h''⟩

theorem inbox_occur (e : Engine) (call : Call) (l : Listener) :
    call.taken e l ++ (e.occur call).store.inbox l =
      e.store.inbox l ++ (call.emitted e).flatMap (List.replicate (e.store.copies l)) := by
  unfold occur
  split
  · next e' hp =>
    cases call with
    | store call =>
      obtain ⟨s, hs, rfl⟩ := ok_of_map hp
      exact StoreCall.inbox_perform hs l
    | propagate source v =>
      obtain ⟨⟨t, stats⟩, ht, rfl⟩ := ok_of_map hp
      rw [show t.store = _ from store_propagate ht]
      exact e.store.inbox_writeAll l (e.writes source v)
  · next cause hp =>
    obtain ⟨he, ht⟩ := Call.emitted_of_refused hp
    rw [he, ht]
    exact (List.append_nil _).symm

theorem inbox_run (e : Engine) (calls : List Call) (l : Listener) :
    received l e calls ++ (e.run calls).store.inbox l = e.store.inbox l ++ heard l e calls := by
  induction calls generalizing e with
  | nil => exact (List.append_nil _).symm
  | cons call rest ih =>
    rw [received, heard, run, List.append_assoc, ih, ← List.append_assoc, inbox_occur, List.append_assoc]

/-- From a contact's registration to its removal its changes lead from the registered value to the present one, upward
and without a gap. Whatever calls are made, each listener is told of exactly the changes made while it was subscribed, in
their order; and a call that is refused changes nothing. -/
theorem run_chronicle {l : Lattice} {carrier : Json → Prop} (hl : l.Orderly carrier) {e e₁ : Engine}
    {id : ContactId} {initial : Option Json}
    (hr : Call.perform e (.store (.register id l initial)) = .ok e₁) {life : List Call}
    (hlife : .store (.remove id) ∉ life) :
    (∃ first c, ContactStore.initialValue id l initial = .ok first ∧ e₁.store.value id = .ok first ∧
      (e₁.run life).store.contacts.get? id = some c ∧
      Chronicle l first ((e₁.emissions life).filter fun r => r.contact = id) c) ∧
    (∀ calls listener, received listener e calls ++ (e.run calls).store.inbox listener =
      e.store.inbox listener ++ heard listener e calls) ∧
    ∀ calls call cause, Call.perform (e.run calls) call = .error cause →
      call.emitted (e.run calls) = [] ∧ (e.run calls).occur call = e.run calls := by
  refine ⟨?_, fun calls listener => e.inbox_run calls listener, fun calls call cause hc => ?_⟩
  · obtain ⟨s, hs, he⟩ := ok_of_map hr
    obtain ⟨first, -, hfirst, rfl⟩ := ContactStore.register_cases hs
    have hc : e₁.store.contacts.get? id = some { id, lattice := l, value := first } := by
      rw [← he]
      exact Dict.get?_insert_self ..
    have htold : Told l carrier first [] { id, lattice := l, value := first } :=
      .register hl (carrier_initialValue hl hfirst)
    obtain ⟨c, hc', h⟩ := told_run hl htold hc hlife
    exact ⟨first, c, hfirst, ContactStore.value_eq_ok.2 ⟨_, hc, rfl⟩, hc', h.toChronicle⟩
  · refine ⟨(Call.emitted_of_refused hc).1, ?_⟩
    rw [occur, hc]

/-- A write that is refused, one that makes no difference and an attempt to register a contact again leave no trace in
its chronicle. -/
theorem run_chronicle_flag :
    let life : List Call := [.store (.register "b" .disjunction none), .store (.connect "w" "b" "a"),
      .store (.update "a" (.str "x")), .store (.update "a" (.bool false)), .propagate "b" (.bool true),
      .store (.register "a" .max none)]
    ∃ e₁ c, Call.perform {} (.store (.register "a" .disjunction none)) = .ok e₁ ∧
      (e₁.run life).store.contacts.get? "a" = some c ∧
      Chronicle .disjunction .null [⟨"a", .null, .bool true, 1⟩] c := by
  intro life
  let e₁ : Engine := { store := { ContactStore.empty with
    contacts := Dict.singleton "a" { id := "a", lattice := .disjunction, value := .null } } }
  have hr : Call.perform {} (.store (.register "a" .disjunction none)) = .ok e₁ := rfl
  have hlife : Call.store (.remove "a") ∉ life := by simp [life]
  obtain ⟨⟨first, c, hfirst, -, hc, h⟩, -⟩ := run_chronicle Lattice.disjunction_orderly hr hlife
  cases hfirst
  have hnews : ((e₁.emissions life).filter fun r => r.contact = "a") = [⟨"a", .null, .bool true, 1⟩] := by cbv
  exact ⟨e₁, c, hr, hc, hnews ▸ h⟩

end Engine

end Patchbay
