import Patchbay.Proofs.Gadget.Answer

/-! What an executor makes of the changes it hears. It knows who reads which contact, and asked for those who are due it
names each gadget that reads a contact which changed since it was asked last. -/

namespace Patchbay

/-! ## What a call changes -/

namespace StoreCall

variable {s s' : ContactStore} {call : StoreCall} {l : Listener} {n : Subscription} {contact : ContactId}

/-- The call is a write that makes a difference to a contact. -/
def Changes (s : ContactStore) (contact : ContactId) (call : StoreCall) : Prop :=
  ∃ v s', call = .update contact v ∧ s.update contact v = .ok (s', true)

theorem exists_changes_iff : (∃ r ∈ s.changes call.writes, r.contact = contact) ↔ call.Changes s contact := by
  cases call with
  | update id v =>
    rw [writes, ContactStore.changes, ContactStore.changes, List.append_nil]
    constructor
    · rintro ⟨r, hr, rfl⟩
      have hc := Option.mem_toList.1 hr
      obtain ⟨s', hu⟩ := ContactStore.isSome_changeOf_iff.1 (Option.isSome_iff_exists.2 ⟨r, hc⟩)
      rw [ContactStore.contact_of_changeOf hc]
      exact ⟨v, s', rfl, hu⟩
    · rintro ⟨_, s', he, hu⟩
      cases he
      obtain ⟨r, hr⟩ := Option.isSome_iff_exists.1 (ContactStore.isSome_changeOf_iff.2 ⟨s', hu⟩)
      exact ⟨r, Option.mem_toList.2 hr, ContactStore.contact_of_changeOf hr⟩
  | _ =>
    constructor
    · rintro ⟨_, hr, -⟩
      exact absurd hr List.not_mem_nil
    · rintro ⟨_, _, he, -⟩
      cases he

theorem taken_of_heeds (h : call.Heeds l n) : call.taken s l = [] := by
  cases call with
  | takeMail recipient =>
    have hnot : recipient l = false := h
    simp only [taken, ContactStore.lettersTo, List.filter_reverse, List.filter_filter, List.map_reverse,
      List.reverse_eq_nil_iff, List.map_eq_nil_iff, List.filter_eq_nil_iff, Bool.and_eq_true, decide_eq_true_eq]
    rintro m - ⟨hm, hto⟩
    rw [hm, hnot] at hto
    cases hto
  | _ => rfl

theorem told_perform (h : call.perform s = .ok s') (hh : call.Heeds l n) (hl : (n, l) ∈ s.listeners) :
    (∃ r ∈ s'.inbox l, r.contact = contact) ↔
      (∃ r ∈ s.inbox l, r.contact = contact) ∨ call.Changes s contact := by
  have hinbox := inbox_perform h l
  rw [taken_of_heeds hh, List.nil_append] at hinbox
  simp [hinbox, or_and_right, exists_or, ← exists_changes_iff, ContactStore.copies_ne_zero hl]

end StoreCall

/-! ## Moves -/

/-- An executor and the store that it listens to. -/
structure Lookout where
  executor : Executor
  store : ContactStore

namespace Lookout

inductive Move where
  | register (id : GadgetId) (gadget : Gadget) (mount : Mount)
  | unregister (id : GadgetId)
  | store (call : StoreCall)
  | triggered

/-- A move leaves a listener its letters, unless it asks who is due, and its subscription. -/
def Move.Heeds (l : Listener) (n : Subscription) : Move → Prop
  | store call => call.Heeds l n
  | _ => True

def subscribed (x : Executor) (s : ContactStore) : Lookout := ⟨(x.subscribe s).1, (x.subscribe s).2⟩

/-- The gadgets that are due. -/
def due (w : Lookout) : List GadgetId := (w.executor.triggered w.store).2

/-- A move is made. One that is refused has no effect. -/
def step (w : Lookout) : Move → Lookout
  | .register id gadget mount =>
    match w.executor.register id gadget mount with
    | .ok executor => { w with executor }
    | .error _ => w
  | .unregister id =>
    match w.executor.unregister id with
    | .ok (executor, _) => { w with executor }
    | .error _ => w
  | .store call =>
    match call.perform w.store with
    | .ok store => { w with store }
    | .error _ => w
  | .triggered => { w with store := (w.executor.triggered w.store).1 }

def run (w : Lookout) (moves : List Move) : Lookout := moves.foldl step w

/-- Some move made a difference to a contact, and none that came later asked who is due. -/
def ChangedSince (w : Lookout) (moves : List Move) (contact : ContactId) : Prop :=
  ∃ earlier call later, moves = earlier ++ .store call :: later ∧ .triggered ∉ later ∧
    call.Changes (w.run earlier).store contact

variable {w : Lookout} {l : Listener} {n : Subscription} {m : Move} {moves : List Move} {contact : ContactId}

theorem run_concat (w : Lookout) (moves : List Move) (m : Move) : w.run (moves ++ [m]) = (w.run moves).step m := by
  rw [run, List.foldl_append]
  rfl

theorem not_changedSince_nil : ¬w.ChangedSince [] contact := by
  rintro ⟨earlier, call, later, he, -⟩
  cases earlier <;> cases he

theorem changedSince_concat : w.ChangedSince (moves ++ [m]) contact ↔
    m ≠ .triggered ∧ (w.ChangedSince moves contact ∨
      ∃ call, m = .store call ∧ call.Changes (w.run moves).store contact) := by
  constructor
  · rintro ⟨earlier, call, later, he, hlater, hc⟩
    rcases List.eq_nil_or_concat later with rfl | ⟨later, last, rfl⟩
    · obtain ⟨rfl, hm⟩ := List.append_inj' he rfl
      obtain rfl : m = .store call := List.singleton_inj.1 hm
      exact ⟨nofun, .inr ⟨call, rfl, hc⟩⟩
    · rw [List.concat_eq_append, ← List.cons_append, ← List.append_assoc] at he
      obtain ⟨rfl, hm⟩ := List.append_inj' he rfl
      obtain rfl : m = last := List.singleton_inj.1 hm
      rw [List.concat_eq_append, List.mem_append, List.mem_singleton, not_or] at hlater
      exact ⟨fun h => hlater.2 h.symm, .inl ⟨earlier, call, later, rfl, hlater.1, hc⟩⟩
  · rintro ⟨hm, ⟨earlier, call, later, rfl, hlater, hc⟩ | ⟨call, rfl, hc⟩⟩
    · refine ⟨earlier, call, later ++ [m], by rw [List.append_assoc, List.cons_append], ?_, hc⟩
      rw [List.mem_append, List.mem_singleton, not_or]
      exact ⟨hlater, fun h => hm h.symm⟩
    · exact ⟨moves, call, [], rfl, List.not_mem_nil, hc⟩

/-! ## What is known after a move -/

/-- The executor listens, and knows who reads which contact. -/
structure Attends (w : Lookout) (l : Listener) (n : Subscription) : Prop where
  indexed : w.executor.Indexed
  listener_eq : w.executor.listener = l
  hears : (n, l) ∈ w.store.listeners

/-- The executor has heard of a contact since it was asked who is due. -/
def Told (w : Lookout) (contact : ContactId) : Prop := ∃ r ∈ w.store.inbox w.executor.listener, r.contact = contact

/-- A move changes the executor at most, and then neither whom it hears nor that it knows who reads what; or a call is
carried out; or the executor is asked who is due. -/
theorem step_cases (w : Lookout) (m : Move) :
    (∃ x : Executor, w.step m = { w with executor := x } ∧ (w.executor.Indexed → x.Indexed) ∧
      x.listener = w.executor.listener ∧ m ≠ .triggered ∧
      ∀ contact, ¬∃ call, m = .store call ∧ call.Changes w.store contact) ∨
    (∃ call s, m = .store call ∧ call.perform w.store = .ok s ∧ w.step m = { w with store := s }) ∨
    m = .triggered := by
  cases m with
  | register id gadget mount =>
    simp only [step]
    split
    · next x hx =>
      obtain ⟨-, -, readers, rfl⟩ := Executor.register_cases hx
      exact .inl ⟨_, rfl, fun h => h.register hx, rfl, nofun, nofun⟩
    · exact .inl ⟨w.executor, rfl, fun h => h, rfl, nofun, nofun⟩
  | unregister id =>
    simp only [step]
    split
    · next x mount hx =>
      obtain ⟨readers, rfl⟩ := Executor.unregister_cases hx
      exact .inl ⟨_, rfl, fun h => h.unregister hx, rfl, nofun, nofun⟩
    · exact .inl ⟨w.executor, rfl, fun h => h, rfl, nofun, nofun⟩
  | store call =>
    simp only [step]
    split
    · next s hs => exact .inr (.inl ⟨call, s, rfl, hs, rfl⟩)
    · next cause hs =>
      refine .inl ⟨w.executor, rfl, fun h => h, rfl, nofun, ?_⟩
      rintro contact ⟨_, he, v, s', rfl, hu⟩
      cases he
      simp only [StoreCall.perform, hu] at hs
      cases hs
  | triggered => exact .inr (.inr rfl)

theorem not_told_triggered : ¬(w.step .triggered).Told contact := by
  rintro ⟨r, hr, -⟩
  obtain ⟨letter, hletter, -⟩ := List.mem_map.1 hr
  obtain ⟨hleft, hto⟩ := List.mem_filter.1 (List.mem_reverse.1 hletter)
  have hnot := (List.mem_filter.1 hleft).2
  simp [of_decide_eq_true hto, step, Executor.triggered] at hnot

theorem Attends.step (h : w.Attends l n) (hm : m.Heeds l n) : (w.step m).Attends l n := by
  obtain ⟨x, he, hindexed, hlistener, -⟩ | ⟨call, s, rfl, hs, he⟩ | rfl := w.step_cases m
  · rw [he]
    exact ⟨hindexed h.indexed, hlistener.trans h.listener_eq, h.hears⟩
  · rw [he]
    exact ⟨h.indexed, h.listener_eq, StoreCall.listeners_perform hs hm h.hears⟩
  · exact ⟨h.indexed, h.listener_eq, h.hears⟩

/-- After a move the executor has heard of what it had heard of before and of what the move changed, or of nothing if it
was asked. -/
theorem told_step (h : w.Attends l n) (hm : m.Heeds l n) : (w.step m).Told contact ↔
    m ≠ .triggered ∧ (w.Told contact ∨ ∃ call, m = .store call ∧ call.Changes w.store contact) := by
  obtain ⟨x, he, -, hlistener, hasked, hno⟩ | ⟨call, s, rfl, hs, he⟩ | rfl := w.step_cases m
  · rw [he, Told, hlistener, or_iff_left (hno contact), and_iff_right hasked]
    rfl
  · have htold : (w.step (.store call)).Told contact ↔ w.Told contact ∨ call.Changes w.store contact := by
      rw [he, Told, Told, h.listener_eq]
      exact StoreCall.told_perform hs hm h.hears
    simp [htold]
  · exact iff_of_false not_told_triggered fun h => h.1 rfl

/-! ## Runs -/

theorem Attends.run (h : w.Attends l n) (hm : ∀ m ∈ moves, m.Heeds l n) : (w.run moves).Attends l n :=
  foldl_keeps (P := fun w => Attends w l n) (fun _ m hmem hw => hw.step (hm m hmem)) h

/-- What the executor has heard of is what changed since it was asked who is due. -/
theorem told_run (h : w.Attends l n) (hnone : ∀ contact, ¬w.Told contact) (hm : ∀ m ∈ moves, m.Heeds l n) :
    (w.run moves).Told contact ↔ w.ChangedSince moves contact := by
  induction moves using List.reverseRecOn with
  | nil => exact iff_of_false (hnone contact) not_changedSince_nil
  | append_singleton earlier m ih =>
    have hearlier : ∀ m ∈ earlier, m.Heeds l n := fun m hmem => hm m (List.mem_append_left _ hmem)
    have hlast : m.Heeds l n := hm m (List.mem_append_right _ (List.mem_singleton_self m))
    rw [run_concat, told_step (h.run hearlier) hlast, ih hearlier, changedSince_concat]

theorem attends_subscribed {x : Executor} (hx : x.Built) (s : ContactStore) {n : Subscription}
    (hn : (x.subscribe s).1.subscription = some n) : (subscribed x s).Attends x.listener n where
  indexed := (hx.subscribe s).indexed
  listener_eq := rfl
  hears := by
    cases hn
    exact List.mem_append_right _ (List.mem_singleton_self _)

theorem inbox_subscribed (x : Executor) (s : ContactStore) :
    (subscribed x s).store.inbox x.listener = s.inbox x.listener := by
  simp only [subscribed, Executor.subscribe]
  split <;> rfl

/-- Whatever gadgets are registered and unregistered, whatever is done to the store and whenever the executor is asked who
is due, it knows for each contact the gadgets in place with an input pin on it and lists no contact without any; and asked
again it names, each once and in order, the gadgets in place that read a contact which changed since it was asked last. -/
theorem due_iff_reads_changed {x : Executor} (hx : x.Built) {s : ContactStore} (hs : s.inbox x.listener = [])
    {n : Subscription} (hn : (x.subscribe s).1.subscription = some n) {moves : List Move}
    (hm : ∀ m ∈ moves, m.Heeds x.listener n) :
    let w := (subscribed x s).run moves
    w.executor.Indexed ∧ w.due.Pairwise (· < ·) ∧
      ∀ id, id ∈ w.due ↔ ∃ contact, w.executor.Reads id contact ∧ (subscribed x s).ChangedSince moves contact := by
  intro w
  have hstart := attends_subscribed hx s hn
  have hend : w.Attends x.listener n := hstart.run hm
  have hnone : ∀ contact, ¬(subscribed x s).Told contact := by
    rintro contact ⟨r, hr, -⟩
    rw [hstart.listener_eq, inbox_subscribed, hs] at hr
    cases hr
  refine ⟨hend.indexed, Dict.ordered _, fun id => Executor.mem_readersOf.trans (exists_congr fun contact => ?_)⟩
  rw [Executor.contains_dirty_iff_inbox, hend.indexed.mem_iff, and_comm]
  exact and_congr_right fun _ => told_run hstart hnone hm

/-- Two gadgets share a contact, on which one of them has two pins. It is registered twice and then removed; the other is
due once the contact changes. -/
theorem due_shared :
    let moves : List Move := [
      .store (.register "a" .disjunction none),
      .register "g" Bench.echoGadget { inputs := .ofList [("in", "a"), ("more", "a")] },
      .register "h" Bench.echoGadget { inputs := .ofList [("in", "a"), ("more", "b")] },
      .store (.update "a" (.bool false)),
      .register "g" Bench.echoGadget {},
      .triggered,
      .unregister "g",
      .store (.update "a" (.bool true))]
    let w := (subscribed {} .empty).run moves
    w.due = ["h"] ∧ w.executor.Indexed ∧
      ∃ contact, w.executor.Reads "h" contact ∧ (subscribed {} .empty).ChangedSince moves contact := by
  intro moves w
  have hheeds : ∀ m ∈ moves, m.Heeds (.executor 0) 1 := by
    simp only [moves, List.forall_mem_cons]
    exact ⟨trivial, trivial, trivial, trivial, trivial, trivial, trivial, trivial, nofun⟩
  have hdue : w.due = ["h"] := by decide +kernel
  obtain ⟨hindexed, -, hiff⟩ := due_iff_reads_changed (.new 0) (s := .empty) rfl rfl hheeds
  exact ⟨hdue, hindexed, (hiff "h").1 (hdue ▸ List.mem_singleton_self "h")⟩

end Lookout

end Patchbay
