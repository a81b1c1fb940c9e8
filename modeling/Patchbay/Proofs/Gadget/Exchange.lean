import Patchbay.Proofs.Contact.Making
import Patchbay.Proofs.Gadget.Readers
import Mathlib.Logic.Function.Basic

/-! Several executors and several stores. A store numbers the subscriptions that it gives, and an executor remembers its
own by the number alone. So a call takes away somebody else's listener where the number came from another store; as long
as the calls of an executor go to the store that it listens to, it hears of that store and of no other. -/

namespace Patchbay

/-! ## The numbers of one store -/

/-- No listener has a number beyond the last that was given. -/
def ContactStore.Counted (s : ContactStore) : Prop := ∀ n l, (n, l) ∈ s.listeners → n ≤ s.lastSubscription

namespace StoreCall

variable {s s' : ContactStore} {call : StoreCall}

/-- A call leaves those who listen as they are, unless it is one of the two that are about them. -/
theorem listeners_cases (h : call.perform s = .ok s') :
    (s'.listeners = s.listeners ∧ s'.lastSubscription = s.lastSubscription) ∨
      (∃ l, call = .subscribe l ∧ s' = (s.subscribe l).1) ∨ ∃ n, call = .unsubscribe n ∧ s' = (s.unsubscribe n).1 := by
  obtain ⟨_, _, _, _, -, -, -, rfl⟩ | ⟨_, _, _, -, hu⟩ | ⟨_, _, _, -, rfl⟩ | ⟨_, _, _, -, -, -, rfl⟩ |
    hsub | hunsub | ⟨_, -, rfl⟩ := perform_cases h
  · exact .inl ⟨rfl, rfl⟩
  · have hadv := ContactStore.Advances.of_update hu
    exact .inl ⟨hadv.listeners_eq, hadv.lastSubscription_eq⟩
  · exact .inl ⟨rfl, rfl⟩
  · exact .inl ⟨rfl, rfl⟩
  · exact .inr (.inl hsub)
  · exact .inr (.inr hunsub)
  · exact .inl ⟨rfl, rfl⟩

theorem counted_perform (hs : s.Counted) (h : call.perform s = .ok s') :
    s'.Counted ∧ s.lastSubscription ≤ s'.lastSubscription := by
  obtain ⟨hl, hn⟩ | ⟨l, -, rfl⟩ | ⟨m, -, rfl⟩ := listeners_cases h
  · refine ⟨fun n l hmem => ?_, Nat.le_of_eq hn.symm⟩
    rw [hn]
    exact hs n l (hl ▸ hmem)
  · refine ⟨fun n l' hmem => ?_, Nat.le_succ _⟩
    rcases List.mem_append.1 hmem with hold | hnew
    · exact Nat.le_succ_of_le (hs n l' hold)
    · cases List.mem_singleton.1 hnew
      exact Nat.le_refl _
  · exact ⟨fun n l hmem => hs n l (List.mem_of_mem_filter hmem), Nat.le_refl _⟩

end StoreCall

namespace ContactStore

variable {s : ContactStore} {l : Listener} {n : Subscription}

theorem Counted.occur (h : s.Counted) (call : StoreCall) :
    (s.occur call).Counted ∧ s.lastSubscription ≤ (s.occur call).lastSubscription := by
  unfold ContactStore.occur
  split
  · next hp => exact StoreCall.counted_perform h hp
  · exact ⟨h, Nat.le_refl _⟩

theorem Built.counted (h : s.Built) : s.Counted := by
  have hstep {s s' : ContactStore} (call : StoreCall) (hs : s.Counted) (hp : call.perform s = .ok s') : s'.Counted :=
    (StoreCall.counted_perform hs hp).1
  induction h with
  | empty => exact nofun
  | register _ hr ih => exact hstep (.register ..) ih hr
  | update _ hu ih => exact hstep (.update ..) ih (by rw [StoreCall.perform, hu]; rfl)
  | remove _ hr ih => exact hstep (.remove _) ih (by rw [StoreCall.perform, hr]; rfl)
  | connect _ hc ih => exact hstep (.connect ..) ih (by rw [StoreCall.perform, hc]; rfl)
  | disconnect _ hd ih => exact hstep (.disconnect _) ih (by rw [StoreCall.perform, hd]; rfl)
  | setActive _ ha ih => exact hstep (.setActive ..) ih ha
  | removeWire wire _ ih => exact hstep (.removeWire wire) ih rfl
  | subscribe l _ ih => exact hstep (.subscribe l) ih rfl
  | unsubscribe n _ ih => exact hstep (.unsubscribe n) ih rfl
  | takeMail recipient _ ih => exact hstep (.takeMail recipient) ih rfl

/-- Whoever listens after a call listened before, or is subscribed by it under a new number. -/
theorem mem_listeners_of_occur {call : StoreCall} (h : (n, l) ∈ (s.occur call).listeners) :
    (n, l) ∈ s.listeners ∨ n = s.lastSubscription + 1 ∧ call = .subscribe l := by
  unfold occur at h
  split at h
  · next hp =>
    obtain ⟨hl, -⟩ | ⟨l', rfl, rfl⟩ | ⟨m, -, rfl⟩ := StoreCall.listeners_cases hp
    · exact .inl (hl ▸ h)
    · rcases List.mem_append.1 h with hold | hnew
      · exact .inl hold
      · cases List.mem_singleton.1 hnew
        exact .inr ⟨rfl, rfl⟩
    · exact .inl (List.mem_of_mem_filter h)
  · exact .inl h

theorem mem_listeners_occur {call : StoreCall} (h : (n, l) ∈ s.listeners) (hc : call ≠ .unsubscribe n) :
    (n, l) ∈ (s.occur call).listeners := by
  unfold occur
  split
  · next hp =>
    obtain ⟨hl, -⟩ | ⟨l', -, rfl⟩ | ⟨m, rfl, rfl⟩ := StoreCall.listeners_cases hp
    · exact hl ▸ h
    · exact List.mem_append_left _ h
    · have hne : n ≠ m := fun he => hc (he ▸ rfl)
      exact List.mem_filter.2 ⟨h, decide_eq_true hne⟩
  · exact h

theorem occur_update (s : ContactStore) (id : ContactId) (v : Json) : s.occur (.update id v) = s.write (id, v) := by
  cases hu : s.update id v <;> simp only [occur, StoreCall.perform, hu, write, Except.map]

theorem copies_eq_zero (h : ∀ n, (n, l) ∉ s.listeners) : s.copies l = 0 := by
  refine List.countP_eq_zero.2 ?_
  rintro ⟨n, l'⟩ hmem
  have hne : l' ≠ l := fun he => h n (he ▸ hmem)
  simpa using hne

end ContactStore

/-! ## The calls of an executor -/

namespace Executor

inductive Call where
  | subscribe
  | unsubscribe

namespace Call

def perform (x : Executor) (s : ContactStore) : Call → Executor × ContactStore
  | subscribe => x.subscribe s
  | unsubscribe => x.unsubscribe s

/-- The number that the store gives to a call. -/
def given (s : ContactStore) : Call → Option Subscription
  | subscribe => some (s.lastSubscription + 1)
  | unsubscribe => none

theorem eq_of_given {s : ContactStore} {call : Call} {n : Subscription} (h : call.given s = some n) :
    n = s.lastSubscription + 1 := by
  cases call <;> cases h
  rfl

/-- A call strikes the number that the executor remembers and enters the new one, if it is given one. -/
theorem perform_eq (x : Executor) (s : ContactStore) (call : Call) :
    call.perform x s = ({ x with subscription := call.given s }, { s with
      lastSubscription := (call.given s).getD s.lastSubscription
      listeners := (s.listeners.filter fun e => x.subscription ≠ some e.1) ++
        (call.given s).toList.map fun n => (n, x.listener) }) := by
  obtain ⟨number, gadgets, readers, subscription⟩ := x
  cases call <;> cases subscription <;>
    simp [perform, given, Executor.subscribe, Executor.unsubscribe, ContactStore.subscribe, ContactStore.unsubscribe,
      eq_comm, listener]

end Call

end Executor

/-! ## Moves -/

/-- Stores, and executors that may listen to them. Of its subscription an executor remembers the number only; `origin`
tells which store gave it. -/
structure Exchange where
  stores : Nat → ContactStore
  executors : Nat → Executor
  origin : Nat → Option Nat
  number_eq : ∀ k, (executors k).number = k

namespace Exchange

inductive Move where
  | call (executor store : Nat) (call : Executor.Call)
  | store (store : Nat) (call : StoreCall)

/-- An executor makes a call to a store. -/
def perform (w : Exchange) (k i : Nat) (call : Executor.Call) : Exchange where
  stores := Function.update w.stores i (call.perform (w.executors k) (w.stores i)).2
  executors := Function.update w.executors k (call.perform (w.executors k) (w.stores i)).1
  origin := Function.update w.origin k ((call.given (w.stores i)).map fun _ => i)
  number_eq j := by
    by_cases hj : j = k
    · subst hj
      rw [Function.update_self, Executor.Call.perform_eq]
      exact w.number_eq j
    · rw [Function.update_of_ne hj]
      exact w.number_eq j

def step (w : Exchange) : Move → Exchange
  | .call k i call => w.perform k i call
  | .store i call => { w with stores := Function.update w.stores i ((w.stores i).occur call) }

def run (w : Exchange) (moves : List Move) : Exchange := moves.foldl step w

/-- No executor has listened to any store so far. Others may have. -/
structure Fresh (w : Exchange) : Prop where
  built : ∀ i, (w.stores i).Built
  unheard : ∀ i n k, (n, .executor k) ∉ (w.stores i).listeners
  idle : ∀ k, (w.executors k).subscription = none
  origin_eq : ∀ k, w.origin k = none

/-- A call of an executor goes to the store that it listens to, if it listens to one. -/
def Apt (w : Exchange) : Move → Prop
  | .call k i _ => ∀ j, w.origin k = some j → j = i
  | .store _ _ => True

/-- Nobody else subscribes an executor or ends its subscription. -/
def Fair (w : Exchange) : Move → Prop
  | .store _ (.subscribe l) => ∀ k, l ≠ .executor k
  | .store i (.unsubscribe n) => ∀ k, (n, .executor k) ∉ (w.stores i).listeners
  | _ => True

/-- Every move of a run is apt and fair where it is made. -/
def Orderly : Exchange → List Move → Prop
  | _, [] => True
  | w, m :: rest => w.Apt m ∧ w.Fair m ∧ (w.step m).Orderly rest

/-! ## What a move does -/

/-- A call of an executor takes a listener other than that executor from some store. -/
def Evicts (w : Exchange) (k i : Nat) (call : Executor.Call) : Prop :=
  ∃ j n l, (n, l) ∈ (w.stores j).listeners ∧ (n, l) ∉ ((w.perform k i call).stores j).listeners ∧ l ≠ .executor k

/-- A contact counts as changed for an executor, by what it heard of some store. -/
def Marked (w : Exchange) (k : Nat) (contact : ContactId) : Prop :=
  ∃ j, ((w.executors k).dirty (w.stores j)).contains contact = true

/-- Every change in a store marks its contact for an executor. -/
def Hears (w : Exchange) (k j : Nat) : Prop :=
  ∀ id v s, (w.stores j).update id v = .ok (s, true) → (w.step (.store j (.update id v))).Marked k id

/-- No write to a store marks any contact for an executor. -/
def Deaf (w : Exchange) (k j : Nat) : Prop :=
  ∀ id v contact, (w.step (.store j (.update id v))).Marked k contact ↔ w.Marked k contact

variable {w : Exchange} {i j k : Nat} {n : Subscription} {l : Listener} {contact : ContactId} {call : Executor.Call}
  {moves : List Move}

theorem listener_eq (w : Exchange) (k : Nat) : (w.executors k).listener = .executor k := by
  rw [Executor.listener, w.number_eq]

theorem stores_perform_of_ne (w : Exchange) (k : Nat) (call : Executor.Call) (h : j ≠ i) :
    (w.perform k i call).stores j = w.stores j :=
  Function.update_of_ne h _ _

theorem stores_perform_self (w : Exchange) (k i : Nat) (call : Executor.Call) :
    (w.perform k i call).stores i = { w.stores i with
      lastSubscription := (call.given (w.stores i)).getD (w.stores i).lastSubscription
      listeners := ((w.stores i).listeners.filter fun e => (w.executors k).subscription ≠ some e.1) ++
        (call.given (w.stores i)).toList.map fun n => (n, .executor k) } := by
  have hself : (w.perform k i call).stores i = (call.perform (w.executors k) (w.stores i)).2 := Function.update_self ..
  rw [hself, Executor.Call.perform_eq, listener_eq]

theorem subscription_perform_self (w : Exchange) (k i : Nat) (call : Executor.Call) :
    ((w.perform k i call).executors k).subscription = call.given (w.stores i) := by
  have hself : (w.perform k i call).executors k = (call.perform (w.executors k) (w.stores i)).1 :=
    Function.update_self ..
  rw [hself, Executor.Call.perform_eq]

theorem origin_perform_self (w : Exchange) (k i : Nat) (call : Executor.Call) :
    (w.perform k i call).origin k = (call.given (w.stores i)).map fun _ => i :=
  Function.update_self ..

theorem executors_perform_of_ne (w : Exchange) (i : Nat) (call : Executor.Call) {k' : Nat} (h : k' ≠ k) :
    (w.perform k i call).executors k' = w.executors k' ∧ (w.perform k i call).origin k' = w.origin k' :=
  ⟨Function.update_of_ne h _ _, Function.update_of_ne h _ _⟩

/-- Those who listen after a call of an executor: those who listened before, less whoever has the number that it
remembers in the store it calls, and the executor itself under the number that it is given there. -/
theorem mem_listeners_perform : (n, l) ∈ ((w.perform k i call).stores j).listeners ↔
    ((n, l) ∈ (w.stores j).listeners ∧ (j = i → (w.executors k).subscription ≠ some n)) ∨
      j = i ∧ call.given (w.stores i) = some n ∧ l = .executor k := by
  by_cases hj : j = i
  · subst hj
    rw [stores_perform_self]
    simp [@eq_comm _ (Listener.executor k)]
  · rw [stores_perform_of_ne w k call hj]
    simp [hj]

theorem stores_store_of_ne (w : Exchange) (call : StoreCall) (h : j ≠ i) :
    (w.step (.store i call)).stores j = w.stores j :=
  Function.update_of_ne h _ _

theorem stores_store_self (w : Exchange) (i : Nat) (call : StoreCall) :
    (w.step (.store i call)).stores i = (w.stores i).occur call :=
  Function.update_self ..

/-! ## Where a number comes from -/

/-- The number that an executor remembers was given by the store of origin, where nobody else has it. -/
structure Tied (w : Exchange) : Prop where
  counted : ∀ i, (w.stores i).Counted
  idle : ∀ k, w.origin k = none → (w.executors k).subscription = none
  held : ∀ k i, w.origin k = some i → ∃ n, (w.executors k).subscription = some n ∧
    n ≤ (w.stores i).lastSubscription ∧ ∀ l, (n, l) ∈ (w.stores i).listeners → l = .executor k

theorem Fresh.tied (h : w.Fresh) : w.Tied where
  counted i := (h.built i).counted
  idle k _ := h.idle k
  held k i hk := by
    rw [h.origin_eq k] at hk
    cases hk

theorem Tied.exists_origin (h : w.Tied) (hn : (w.executors k).subscription = some n) :
    ∃ i, w.origin k = some i ∧ ∀ l, (n, l) ∈ (w.stores i).listeners → l = .executor k := by
  cases ho : w.origin k with
  | none =>
    rw [h.idle k ho] at hn
    cases hn
  | some i =>
    obtain ⟨m, hm, -, hown⟩ := h.held k i ho
    cases hn.symm.trans hm
    exact ⟨i, rfl, hown⟩

theorem lastSubscription_le_perform (w : Exchange) (k i : Nat) (call : Executor.Call) (j : Nat) :
    (w.stores j).lastSubscription ≤ ((w.perform k i call).stores j).lastSubscription := by
  by_cases hj : j = i
  · subst hj
    rw [stores_perform_self]
    cases hgiven : call.given (w.stores j) with
    | none => exact Nat.le_refl _
    | some n =>
      rw [Executor.Call.eq_of_given hgiven]
      exact Nat.le_succ _
  · rw [stores_perform_of_ne w k call hj]

theorem le_lastSubscription_of_given (w : Exchange) (k : Nat) (h : call.given (w.stores i) = some n) :
    n ≤ ((w.perform k i call).stores i).lastSubscription := by
  rw [stores_perform_self, h]
  exact Nat.le_refl n

theorem Tied.perform (h : w.Tied) (k i : Nat) (call : Executor.Call) : (w.perform k i call).Tied where
  counted j n l hmem := by
    rcases mem_listeners_perform.1 hmem with ⟨hold, -⟩ | ⟨rfl, hgiven, -⟩
    · exact (h.counted j n l hold).trans (lastSubscription_le_perform w k i call j)
    · exact le_lastSubscription_of_given w k hgiven
  idle k' ho := by
    by_cases hk : k' = k
    · subst hk
      rw [origin_perform_self, Option.map_eq_none_iff] at ho
      rw [subscription_perform_self, ho]
    · obtain ⟨hx, ho'⟩ := executors_perform_of_ne w i call hk
      rw [hx]
      exact h.idle k' (ho' ▸ ho)
  held k' j ho := by
    by_cases hk : k' = k
    · subst hk
      rw [origin_perform_self] at ho
      obtain ⟨n, hgiven, rfl⟩ := Option.map_eq_some_iff.1 ho
      refine ⟨n, (subscription_perform_self ..).trans hgiven, le_lastSubscription_of_given w k' hgiven, fun l hl => ?_⟩
      rcases mem_listeners_perform.1 hl with ⟨hold, -⟩ | ⟨-, -, hown⟩
      · have hle := h.counted i n l hold
        cases Executor.Call.eq_of_given hgiven
        exact absurd hle (Nat.not_succ_le_self _)
      · exact hown
    · obtain ⟨hx, ho'⟩ := executors_perform_of_ne w i call hk
      obtain ⟨n, hn, hle, hown⟩ := h.held k' j (ho' ▸ ho)
      refine ⟨n, hx ▸ hn, hle.trans (lastSubscription_le_perform w k i call j), fun l hl => ?_⟩
      rcases mem_listeners_perform.1 hl with ⟨hold, -⟩ | ⟨rfl, hgiven, -⟩
      · exact hown l hold
      · cases Executor.Call.eq_of_given hgiven
        exact absurd hle (Nat.not_succ_le_self _)

theorem Tied.store (h : w.Tied) (i : Nat) (call : StoreCall) : (w.step (.store i call)).Tied where
  counted j := by
    by_cases hj : j = i
    · subst hj
      rw [stores_store_self]
      exact ((h.counted j).occur call).1
    · rw [stores_store_of_ne w call hj]
      exact h.counted j
  idle := h.idle
  held k j ho := by
    obtain ⟨n, hn, hle, hown⟩ := h.held k j ho
    by_cases hj : j = i
    · subst hj
      rw [stores_store_self]
      refine ⟨n, hn, hle.trans ((h.counted j).occur call).2, fun l hl => ?_⟩
      rcases ContactStore.mem_listeners_of_occur hl with hold | ⟨rfl, -⟩
      · exact hown l hold
      · exact absurd hle (Nat.not_succ_le_self _)
    · rw [stores_store_of_ne w call hj]
      exact ⟨n, hn, hle, hown⟩

theorem Tied.step (h : w.Tied) (m : Move) : (w.step m).Tied := by
  cases m with
  | call k i call => exact h.perform k i call
  | store i call => exact h.store i call

theorem Tied.run (h : w.Tied) (moves : List Move) : (w.run moves).Tied :=
  foldl_keeps (P := Tied) (fun _ m _ hw => hw.step m) h

/-- A call takes away somebody else exactly if the number comes from another store and is taken where it is used. -/
theorem Tied.evicts_iff (h : w.Tied) : w.Evicts k i call ↔
    ∃ j n l, w.origin k = some j ∧ j ≠ i ∧ (w.executors k).subscription = some n ∧
      (n, l) ∈ (w.stores i).listeners ∧ l ≠ .executor k := by
  constructor
  · rintro ⟨j, n, l, hl, hgone, hother⟩
    rw [mem_listeners_perform, not_or, not_and, not_forall] at hgone
    obtain ⟨rfl, hn⟩ := hgone.1 hl
    have hn : (w.executors k).subscription = some n := not_not.1 hn
    obtain ⟨o, ho, hown⟩ := h.exists_origin hn
    refine ⟨o, n, l, ho, ?_, hn, hl, hother⟩
    rintro rfl
    exact hother (hown l hl)
  · rintro ⟨j, n, l, -, -, hn, hl, hother⟩
    refine ⟨i, n, l, hl, fun hstays => ?_, hother⟩
    rcases mem_listeners_perform.1 hstays with ⟨-, hne⟩ | ⟨-, -, hown⟩
    · exact hne rfl hn
    · exact hother hown

/-! ## Who is heard -/

/-- An executor listens where it got the number that it remembers, and nowhere else. -/
def Placed (w : Exchange) : Prop :=
  ∀ k j n, (n, .executor k) ∈ (w.stores j).listeners ↔ w.origin k = some j ∧ (w.executors k).subscription = some n

theorem Fresh.placed (h : w.Fresh) : w.Placed := by
  intro k j n
  rw [h.origin_eq k]
  exact iff_of_false (h.unheard j n k) nofun

theorem Placed.perform (h : w.Placed) (ht : w.Tied) (ha : ∀ o, w.origin k = some o → o = i) :
    (w.perform k i call).Placed := by
  intro k' j n
  rw [mem_listeners_perform]
  by_cases hk : k' = k
  · subst hk
    rw [origin_perform_self, subscription_perform_self]
    constructor
    · rintro (⟨hold, hne⟩ | ⟨rfl, hgiven, -⟩)
      -- an old entry of the caller is in the store called, and is struck
      · obtain ⟨ho, hn⟩ := (h k' j n).1 hold
        exact absurd hn (hne (ha j ho))
      · rw [hgiven]
        exact ⟨rfl, rfl⟩
    · rintro ⟨ho, hgiven⟩
      obtain ⟨-, -, rfl⟩ := Option.map_eq_some_iff.1 ho
      exact .inr ⟨rfl, hgiven, rfl⟩
  · obtain ⟨hx, ho⟩ := executors_perform_of_ne w i call hk
    have hother : Listener.executor k' ≠ .executor k := fun he => hk (Listener.executor.inj he)
    rw [hx, ho, ← h k' j n, or_iff_left fun hnew => hother hnew.2.2, and_iff_left_iff_imp]
    -- what is struck in the store called has the number of the caller, and there only the caller has it
    rintro hold rfl hn
    obtain ⟨o, ho, hown⟩ := ht.exists_origin hn
    cases ha o ho
    exact hother (hown _ hold)

theorem Placed.store {call : StoreCall} (h : w.Placed) (hf : w.Fair (.store i call)) :
    (w.step (.store i call)).Placed := by
  intro k j n
  refine Iff.trans ?_ (h k j n)
  by_cases hj : j = i
  · subst hj
    rw [stores_store_self]
    constructor
    · intro hmem
      rcases ContactStore.mem_listeners_of_occur hmem with hold | ⟨-, rfl⟩
      · exact hold
      · exact absurd rfl (hf k)
    · intro hmem
      refine ContactStore.mem_listeners_occur hmem ?_
      rintro rfl
      exact hf k hmem
  · rw [stores_store_of_ne w call hj]

theorem Placed.step {m : Move} (h : w.Placed) (ht : w.Tied) (ha : w.Apt m) (hf : w.Fair m) : (w.step m).Placed := by
  cases m with
  | call k i call => exact h.perform ht ha
  | store i call => exact h.store hf

theorem Placed.run (h : w.Placed) (ht : w.Tied) (ho : w.Orderly moves) : (w.run moves).Placed := by
  induction moves generalizing w with
  | nil => exact h
  | cons m rest ih =>
    obtain ⟨ha, hf, hrest⟩ := ho
    exact ih (h.step ht ha hf) (ht.step m) hrest

theorem marked_iff : w.Marked k contact ↔ ∃ j, ∃ r ∈ (w.stores j).inbox (.executor k), r.contact = contact := by
  refine exists_congr fun j => ?_
  rw [Executor.contains_dirty_iff_inbox, listener_eq]

theorem inbox_step_update (w : Exchange) (i j : Nat) (id : ContactId) (v : Json) :
    ((w.step (.store i (.update id v))).stores j).inbox l =
      (w.stores j).inbox l ++ if j = i then
        ((w.stores i).changeOf id v).toList.flatMap (List.replicate ((w.stores i).copies l)) else [] := by
  by_cases hj : j = i
  · subst hj
    rw [stores_store_self, ContactStore.occur_update, ContactStore.inbox_write, if_pos rfl]
  · rw [stores_store_of_ne w _ hj, if_neg hj, List.append_nil]

theorem deaf_of_unheard (h : ∀ n, (n, .executor k) ∉ (w.stores j).listeners) : w.Deaf k j := by
  intro id v contact
  have hzero : (w.stores j).copies (.executor k) = 0 := ContactStore.copies_eq_zero h
  have hsame (i : Nat) : ((w.step (.store j (.update id v))).stores i).inbox (.executor k) =
      (w.stores i).inbox (.executor k) := by
    rw [inbox_step_update, hzero]
    simp
  simp only [marked_iff, hsame]

theorem hears_of_mem (h : (n, .executor k) ∈ (w.stores j).listeners) : w.Hears k j := by
  intro id v s hs
  obtain ⟨r, hr⟩ := Option.isSome_iff_exists.1 (ContactStore.isSome_changeOf_iff.2 ⟨s, hs⟩)
  have hcopies : (w.stores j).copies (.executor k) ≠ 0 := ContactStore.copies_ne_zero h
  refine marked_iff.2 ⟨j, r, ?_, ContactStore.contact_of_changeOf hr⟩
  rw [inbox_step_update, if_pos rfl, hr]
  simp [hcopies]

theorem Placed.hears (h : w.Placed) (ht : w.Tied) (ho : w.origin k = some j) : w.Hears k j := by
  obtain ⟨n, hn, -⟩ := ht.held k j ho
  exact hears_of_mem ((h k j n).2 ⟨ho, hn⟩)

theorem Placed.deaf (h : w.Placed) (ho : w.origin k ≠ some j) : w.Deaf k j :=
  deaf_of_unheard fun n hmem => ho ((h k j n).1 hmem).1

/-- A call to another store changes nothing about whether an executor hears of this one. -/
theorem Placed.perform_elsewhere (h : w.Placed) (ht : w.Tied) (hij : j ≠ i) :
    (w.origin k = some j → (w.perform k i call).Hears k j) ∧ (w.origin k ≠ some j → (w.perform k i call).Deaf k j) := by
  constructor
  · intro ho
    obtain ⟨n, hn, -⟩ := ht.held k j ho
    refine hears_of_mem (n := n) ?_
    rw [stores_perform_of_ne w k call hij]
    exact (h k j n).2 ⟨ho, hn⟩
  · intro ho
    refine deaf_of_unheard fun n hmem => ho ?_
    rw [stores_perform_of_ne w k call hij] at hmem
    exact ((h k j n).1 hmem).1

/-- Whatever is done, a call of an executor takes away somebody else's listener exactly if the number that the executor
remembers comes from another store than the one called, and is somebody else's there. As long as its calls go to the
store that it listens to, an executor hears of that store and of no other; whatever call it then makes elsewhere, it
hears of the stores that it did not call just as before. -/
theorem calls_spare_others (h : w.Fresh) (moves : List Move) :
    let u := w.run moves
    (∀ k i call, u.Evicts k i call ↔
      ∃ j n l, u.origin k = some j ∧ j ≠ i ∧ (u.executors k).subscription = some n ∧
        (n, l) ∈ (u.stores i).listeners ∧ l ≠ .executor k) ∧
    (w.Orderly moves → ∀ k j,
      (u.origin k = some j → u.Hears k j) ∧ (u.origin k ≠ some j → u.Deaf k j) ∧
      ∀ i call, j ≠ i → (u.origin k = some j → (u.perform k i call).Hears k j) ∧
        (u.origin k ≠ some j → (u.perform k i call).Deaf k j)) := by
  intro u
  have htied : u.Tied := h.tied.run moves
  refine ⟨fun k i call => htied.evicts_iff, fun ho k j => ?_⟩
  have hplaced : u.Placed := h.placed.run h.tied ho
  exact ⟨hplaced.hears htied, hplaced.deaf, fun i call hij => hplaced.perform_elsewhere htied hij⟩

/-- Stores without contacts, and executors without gadgets. -/
def bare : Exchange where
  stores _ := .empty
  executors k := { number := k }
  origin _ := none
  number_eq _ := rfl

theorem fresh_bare : bare.Fresh := ⟨fun _ => .empty, fun _ _ _ => List.not_mem_nil, fun _ => rfl, fun _ => rfl⟩

/-- An executor that leaves one store before it subscribes to another, where somebody listens already. -/
theorem calls_spare_others_moved :
    let moves : List Move := [
      .store 0 (.register "a" .disjunction none),
      .store 1 (.subscribe (.observer 7)),
      .call 0 0 .subscribe,
      .call 1 1 .subscribe,
      .call 0 0 .unsubscribe,
      .call 0 1 .subscribe]
    let u := bare.run moves
    bare.Orderly moves ∧ ¬u.Evicts 0 1 .unsubscribe ∧ u.Hears 0 1 ∧ u.Deaf 0 0 ∧
      (u.perform 0 0 .subscribe).Hears 0 1 := by
  intro moves u
  have horderly : bare.Orderly moves := by
    refine ⟨trivial, trivial, trivial, nofun, ?_, trivial, ?_, trivial, ?_, trivial, ?_, trivial, trivial⟩
    · exact nofun
    · exact nofun
    · rintro j ⟨⟩
      rfl
    · exact nofun
  have horigin : u.origin 0 = some 1 := by decide +kernel
  obtain ⟨hevicts, hheard⟩ := calls_spare_others fresh_bare moves
  refine ⟨horderly, fun htaken => ?_, (hheard horderly 0 1).1 horigin, ?_, ?_⟩
  · obtain ⟨j, -, -, hj, hne, -⟩ := (hevicts 0 1 .unsubscribe).1 htaken
    exact hne (Option.some.inj (hj.symm.trans horigin))
  · exact (hheard horderly 0 0).2.1 (horigin ▸ nofun)
  · exact ((hheard horderly 0 1).2.2 0 .subscribe Nat.one_ne_zero).1 horigin

/-- An executor that subscribes to another store without leaving the first takes away whoever has its number there, and
hears of the first store as before. -/
theorem observer_taken :
    let u := bare.run [
      .store 0 (.register "a" .disjunction none),
      .store 1 (.subscribe (.observer 7)),
      .call 0 0 .subscribe]
    u.Evicts 0 1 .subscribe ∧ ¬(u.perform 0 1 .subscribe).Deaf 0 0 := by
  intro u
  refine ⟨⟨1, 1, .observer 7, by decide +kernel, by decide +kernel, nofun⟩, fun hdeaf => ?_⟩
  have hquiet : ¬(u.perform 0 1 .subscribe).Marked 0 "a" := by
    rintro ⟨j, hj⟩
    match j with
    | 0 => exact absurd hj (by decide +kernel)
    | 1 => exact absurd hj (by decide +kernel)
    | j + 2 => cases hj
  exact hquiet ((hdeaf "a" (.bool true) "a").1 ⟨0, by decide +kernel⟩)

end Exchange

end Patchbay
