import Patchbay.Proofs.Gadget.Deliver
import Patchbay.Proofs.Gadget.Readers

/-! A gadget's turn, a gadget's answer, and what no turn and no answer touches: the contacts and connections, and
where gadgets are mounted. -/

namespace Patchbay.Bench

/-- Two benches differ in values, news, counts and notes at most. -/
structure SameSetup (b b' : Bench) : Prop where
  network : b.engine.store.SameNetwork b'.engine.store
  limits_eq : b'.engine.limits = b.engine.limits
  mounts : ∀ id, (b'.executor.gadgets.get? id).map (fun r => (r.gadget, r.mount)) =
    (b.executor.gadgets.get? id).map fun r => (r.gadget, r.mount)
  readers_eq : b'.executor.readers = b.executor.readers
  number_eq : b'.executor.number = b.executor.number
  subscription_eq : b'.executor.subscription = b.executor.subscription

namespace SameSetup

theorem refl (b : Bench) : b.SameSetup b := ⟨.refl _, rfl, fun _ => rfl, rfl, rfl, rfl⟩

theorem trans {b c d : Bench} (h : b.SameSetup c) (k : c.SameSetup d) : b.SameSetup d where
  network := h.network.trans k.network
  limits_eq := k.limits_eq.trans h.limits_eq
  mounts id := (k.mounts id).trans (h.mounts id)
  readers_eq := k.readers_eq.trans h.readers_eq
  number_eq := k.number_eq.trans h.number_eq
  subscription_eq := k.subscription_eq.trans h.subscription_eq

theorem of_engine {b b' : Bench} (hx : b'.executor = b.executor)
    (hs : b.engine.store.SameNetwork b'.engine.store) (hl : b'.engine.limits = b.engine.limits) :
    b.SameSetup b' := ⟨hs, hl, fun _ => by rw [hx], by rw [hx], by rw [hx], by rw [hx]⟩

variable {b b' : Bench}

/-- A gadget that was in place is there still, mounted as it was. -/
theorem get? (h : b.SameSetup b') {id : GadgetId} {r : Registration}
    (hr : b.executor.gadgets.get? id = some r) :
    ∃ r', b'.executor.gadgets.get? id = some r' ∧ r'.gadget = r.gadget ∧ r'.mount = r.mount := by
  have hs := h.mounts id
  rw [hr, Option.map_some, Option.map_eq_some_iff] at hs
  obtain ⟨r', hr', he⟩ := hs
  obtain ⟨hg, hm⟩ := Prod.mk.inj he
  exact ⟨r', hr', hg, hm⟩

theorem get?_of (h : b.SameSetup b') {id : GadgetId} {r' : Registration}
    (hr : b'.executor.gadgets.get? id = some r') :
    ∃ r, b.executor.gadgets.get? id = some r ∧ r'.gadget = r.gadget ∧ r'.mount = r.mount := by
  have hs := h.mounts id
  rw [hr, Option.map_some, eq_comm, Option.map_eq_some_iff] at hs
  obtain ⟨r, hr, he⟩ := hs
  obtain ⟨hg, hm⟩ := Prod.mk.inj he
  exact ⟨r, hr, hg.symm, hm.symm⟩

theorem listener_eq (h : b.SameSetup b') : b'.executor.listener = b.executor.listener := by
  rw [Executor.listener, Executor.listener, h.number_eq]

theorem reads_iff (h : b.SameSetup b') {id : GadgetId} {contact : ContactId} :
    b'.executor.Reads id contact ↔ b.executor.Reads id contact := by
  constructor
  · rintro ⟨r', hr', hc⟩
    obtain ⟨r, hr, -, hm⟩ := h.get?_of hr'
    exact ⟨r, hr, hm ▸ hc⟩
  · rintro ⟨r, hr, hc⟩
    obtain ⟨r', hr', -, hm⟩ := h.get? hr
    exact ⟨r', hr', hm ▸ hc⟩

theorem indexed (h : b.SameSetup b') (hb : b.executor.Indexed) : b'.executor.Indexed where
  mem_iff contact id := by rw [h.readers_eq, hb.mem_iff, h.reads_iff]
  inhabited := h.readers_eq ▸ hb.inhabited

theorem setRegistration (b : Bench) {id : GadgetId} {r r' : Registration}
    (hr : b.executor.gadgets.get? id = some r) (hg : r'.gadget = r.gadget) (hm : r'.mount = r.mount) :
    b.SameSetup (b.setRegistration id r') := by
  refine ⟨.refl _, rfl, fun k => ?_, rfl, rfl, rfl⟩
  rw [Bench.setRegistration, Dict.get?_insert]
  split
  · next hk => rw [hk, hr, Option.map_some, Option.map_some, hg, hm]
  · rfl

end SameSetup

/-! ## Reading -/

theorem snapshot_eq_ok {b : Bench} {id : GadgetId} {r : Registration} {inputs : PinValues} :
    b.snapshot id = .ok (r, inputs) ↔
      b.executor.gadgets.get? id = some r ∧ b.readInputs r = .ok inputs := by
  constructor
  · intro h
    obtain ⟨r', hr, h⟩ := ok_of_bind h
    obtain ⟨inputs', hi, h⟩ := ok_of_bind h
    cases h
    exact ⟨Executor.registration_eq_ok.1 hr, ok_of_mapError hi⟩
  · rintro ⟨hr, hi⟩
    rw [snapshot, Executor.registration_eq_ok.2 hr]
    simp only [bind, Except.bind, hi, Except.mapError, pure, Except.pure]

/-- Reading goes pin by pin, and each pin has the value of its contact. -/
theorem get?_readInputs {b : Bench} {r : Registration} {inputs : PinValues}
    (h : b.readInputs r = .ok inputs) (pin : PinName) :
    (pin ∈ r.gadget.inputs → ∃ v, inputs.get? pin = some v ∧ b.pinValue r pin = .ok v) ∧
      (pin ∉ r.gadget.inputs → inputs.get? pin = none) := by
  have hfold (pins : List PinName) (acc : PinValues)
      (hf : pins.foldlM (fun values pin => return values.insert pin (← b.pinValue r pin)) acc =
        Except.ok inputs) :
      (pin ∈ pins → ∃ v, inputs.get? pin = some v ∧ b.pinValue r pin = .ok v) ∧
        (pin ∉ pins → inputs.get? pin = acc.get? pin) := by
    induction pins generalizing acc with
    | nil =>
      cases hf
      exact ⟨nofun, fun _ => rfl⟩
    | cons p rest ih =>
      rw [List.foldlM_cons] at hf
      obtain ⟨acc', hacc, hf⟩ := ok_of_bind hf
      obtain ⟨v, hv, hacc⟩ := ok_of_bind hacc
      cases hacc
      obtain ⟨hin, hout⟩ := ih _ hf
      by_cases hr : pin ∈ rest
      · exact ⟨fun _ => hin hr, fun hn => absurd (List.mem_cons_of_mem p hr) hn⟩
      · have hsame := hout hr
        rw [Dict.get?_insert] at hsame
        constructor
        · intro hm
          have hp : pin = p := (List.mem_cons.1 hm).resolve_right hr
          rw [if_pos hp] at hsame
          exact ⟨v, hsame, hp ▸ hv⟩
        · intro hn
          rwa [if_neg fun hp => hn (List.mem_cons.2 (.inl hp))] at hsame
  exact hfold r.gadget.inputs ∅ h

theorem readInputs_isOk {b : Bench} {r : Registration}
    (hv : ∀ pin ∈ r.gadget.inputs, ∃ v, b.pinValue r pin = .ok v) : ∃ x, b.readInputs r = .ok x := by
  have hfold (pins : List PinName) (acc : PinValues) (hp : ∀ pin ∈ pins, ∃ v, b.pinValue r pin = .ok v) :
      ∃ x, pins.foldlM (fun values pin => return values.insert pin (← b.pinValue r pin)) acc =
        Except.ok x := by
    induction pins generalizing acc with
    | nil => exact ⟨acc, rfl⟩
    | cons p rest ih =>
      obtain ⟨v, hpv⟩ := hp p List.mem_cons_self
      rw [List.foldlM_cons, hpv]
      exact ih (acc.insert p v) fun pin hm => hp pin (List.mem_cons_of_mem p hm)
  exact hfold r.gadget.inputs ∅ hv

theorem readInputs_congr {b b' : Bench} {r r' : Registration} (hg : r'.gadget = r.gadget)
    (hv : ∀ pin ∈ r.gadget.inputs, b'.pinValue r' pin = b.pinValue r pin) :
    b'.readInputs r' = b.readInputs r := by
  have hfold (pins : List PinName) (acc : PinValues)
      (hp : ∀ pin ∈ pins, b'.pinValue r' pin = b.pinValue r pin) :
      pins.foldlM (fun values pin => return values.insert pin (← b'.pinValue r' pin)) acc =
        pins.foldlM (fun values pin => return values.insert pin (← b.pinValue r pin)) acc := by
    induction pins generalizing acc with
    | nil => rfl
    | cons p rest ih =>
      rw [List.foldlM_cons, List.foldlM_cons, hp p List.mem_cons_self]
      exact bind_congr fun acc => ih acc fun pin hm => hp pin (List.mem_cons_of_mem p hm)
  rw [readInputs, readInputs, hg]
  exact hfold r.gadget.inputs ∅ hv

theorem readInputs_eq (b : Bench) {r r' : Registration} (hg : r'.gadget = r.gadget) (hm : r'.mount = r.mount) :
    b.readInputs r' = b.readInputs r :=
  readInputs_congr hg fun pin _ => by rw [pinValue, pinValue, hm]

/-! ## Answering -/

/-- An answer writes the outputs, and nothing where there are none for it failed. -/
theorem fire_cases (b : Bench) (id : GadgetId) (r : Registration) (inputs : PinValues) :
    ∃ values r', (b.fire id r inputs).1.engine = b.engine.deliver values ∧
      (b.fire id r inputs).1.executor =
        { b.executor with gadgets := b.executor.gadgets.insert id r' } ∧
      r'.gadget = r.gadget ∧ r'.mount = r.mount ∧
      ∀ outputs, (r.gadget.process r.calls ⟨b.now, inputs, ⟨id, r.mount.params⟩⟩).result = .ok outputs →
        values = r.mount.targets outputs.entries := by
  let r' : Registration := { r with
    calls := r.calls ++ [⟨b.now, inputs, ⟨id, r.mount.params⟩⟩]
    stats := r.stats.record (b.fire id r inputs).2 }
  cases hp : (r.gadget.process r.calls ⟨b.now, inputs, ⟨id, r.mount.params⟩⟩).result with
  | error cause =>
    refine ⟨[], r', ?_, ?_, rfl, rfl, nofun⟩ <;> simp only [r', fire, hp, note, setRegistration, Engine.deliver]
  | ok outputs =>
    refine ⟨r.mount.targets outputs.entries, r', ?_, ?_, rfl, rfl, fun _ ho => by cases ho; rfl⟩
    · simp only [fire, hp, note, setRegistration]
      exact foldl_deliverOutput r.mount outputs.entries (b.engine, {})
    · simp only [r', fire, hp, note, setRegistration]

theorem advances_fire (b : Bench) (id : GadgetId) (r : Registration) (inputs : PinValues) :
    b.engine.store.Advances (b.fire id r inputs).1.engine.store := by
  obtain ⟨values, -, he, -⟩ := b.fire_cases id r inputs
  rw [he]
  exact b.engine.advances_deliver values

theorem sameSetup_fire (b : Bench) {id : GadgetId} {r : Registration} (inputs : PinValues)
    (hr : b.executor.gadgets.get? id = some r) : b.SameSetup (b.fire id r inputs).1 := by
  obtain ⟨values, r', he, hx, hg, hm, -⟩ := b.fire_cases id r inputs
  refine ⟨(b.advances_fire id r inputs).toSameNetwork, ?_, fun k => ?_, by rw [hx], by rw [hx], by rw [hx]⟩
  · rw [he, Engine.limits_deliver]
  · rw [hx, Dict.get?_insert]
    split
    · next hk => rw [hk, hr, Option.map_some, Option.map_some, hg, hm]
    · rfl

/-! ## Turns -/

/-- A turn is passed over, or it ends in a count, an answer or a wait. -/
theorem Round.turn_cases (round : Round) (id : GadgetId) :
    ((∃ e, round.bench.snapshot id = .error e) ∧ round.turn id = round) ∨
    ∃ r inputs, round.bench.executor.gadgets.get? id = some r ∧ round.bench.readInputs r = .ok inputs ∧
      ((r.gadget.activation inputs = false ∧ (round.turn id).waiting = round.waiting ∧
          (round.turn id).bench = (round.bench.skip id r inputs).1) ∨
        (r.gadget.activation inputs = true ∧ (round.turn id).waiting = round.waiting ∧
          (round.turn id).bench = (round.bench.fire id r inputs).1) ∨
        (r.gadget.activation inputs = true ∧ (round.turn id).bench = round.bench ∧
          (round.turn id).waiting = round.waiting ++ [⟨id, r.gadget.delay, inputs⟩])) := by
  cases hs : round.bench.snapshot id with
  | error e => exact .inl ⟨⟨e, rfl⟩, by simp only [turn, hs]⟩
  | ok p =>
    obtain ⟨r, inputs⟩ := p
    obtain ⟨hr, hi⟩ := snapshot_eq_ok.1 hs
    refine .inr ⟨r, inputs, hr, hi, ?_⟩
    cases ha : r.gadget.activation inputs with
    | false => exact .inl ⟨rfl, by simp [turn, hs, ha, finish], by simp [turn, hs, ha, finish]⟩
    | true =>
      by_cases hd : r.gadget.delay = 0
      · exact .inr (.inl ⟨rfl, by simp [turn, hs, ha, hd, finish], by simp [turn, hs, ha, hd, finish]⟩)
      · exact .inr (.inr ⟨rfl, by simp [turn, hs, ha, hd], by simp [turn, hs, ha, hd]⟩)

/-- One who waited answers, unless it is no longer in place. -/
theorem Round.wake_cases (round : Round) (w : Waiting) :
    (round.bench.executor.gadgets.get? w.gadget = none ∧ (round.wake w).bench = round.bench) ∨
    ∃ r, round.bench.executor.gadgets.get? w.gadget = some r ∧
      (round.wake w).bench = (round.bench.fire w.gadget r w.inputs).1 := by
  cases hr : round.bench.executor.gadgets.get? w.gadget with
  | none => exact .inl ⟨rfl, by simp only [wake, Executor.registration, hr]⟩
  | some r => exact .inr ⟨r, rfl, by simp only [wake, Executor.registration, hr, finish]⟩

theorem sameSetup_skip (b : Bench) {id : GadgetId} {r : Registration} (inputs : PinValues)
    (hr : b.executor.gadgets.get? id = some r) : b.SameSetup (b.skip id r inputs).1 :=
  .setRegistration b hr rfl rfl

theorem sameSetup_turn (round : Round) (id : GadgetId) : round.bench.SameSetup (round.turn id).bench := by
  rcases round.turn_cases id with ⟨-, he⟩ | ⟨r, inputs, hr, -, ⟨-, -, hb⟩ | ⟨-, -, hb⟩ | ⟨-, hb, -⟩⟩
  · rw [he]
    exact .refl _
  · rw [hb]
    exact round.bench.sameSetup_skip inputs hr
  · rw [hb]
    exact round.bench.sameSetup_fire inputs hr
  · rw [hb]
    exact .refl _

theorem sameSetup_wake (round : Round) (w : Waiting) : round.bench.SameSetup (round.wake w).bench := by
  rcases round.wake_cases w with ⟨-, hb⟩ | ⟨r, hr, hb⟩
  · rw [hb]
    exact .refl _
  · rw [hb]
    exact round.bench.sameSetup_fire w.inputs hr

theorem sameSetup_runRound (order : List Waiting → List Waiting) (b : Bench) (ids : List GadgetId) :
    b.SameSetup (runRound order b ids).1 := by
  have hturns : b.SameSetup (ids.foldl Round.turn { bench := b }).bench :=
    foldl_keeps (P := fun round : Round => b.SameSetup round.bench)
      (fun round id _ h => h.trans (sameSetup_turn round id)) (.refl b)
  exact foldl_keeps (P := fun round : Round => b.SameSetup round.bench)
    (fun round w _ h => h.trans (sameSetup_wake round w)) hturns

/-- A round of one gadget that is to fire and takes no time is its answer. -/
theorem runRound_singleton (order : List Waiting → List Waiting) (ho : order [] = []) {b : Bench} {id : GadgetId}
    {r : Registration} {inputs : PinValues} (hs : b.snapshot id = .ok (r, inputs))
    (ha : r.gadget.activation inputs = true) (hd : r.gadget.delay = 0) :
    (runRound order b [id]).1 = (b.fire id r inputs).1 := by
  simp [runRound, Round.turn, hs, ha, hd, Round.finish, ho]

theorem sameSetup_triggered (b : Bench) : b.SameSetup b.triggered.1 :=
  .of_engine rfl ⟨fun _ => rfl, rfl, rfl, rfl, rfl, rfl⟩ rfl

theorem sameSetup_settleWith (order : Nat → List Waiting → List Waiting) (n : Nat) (b : Bench) :
    b.SameSetup (settleWith order n b).1 := by
  induction n generalizing b with
  | zero => exact .refl b
  | succ n ih =>
    simp only [settleWith]
    split
    · exact b.sameSetup_triggered
    · exact (b.sameSetup_triggered.trans (sameSetup_runRound (order n) _ _)).trans (ih _)

/-- News that was just taken is no longer there. -/
theorem hasPending_triggered (b : Bench) : b.triggered.1.hasPending = false := by
  rw [hasPending, Executor.hasPending, List.any_eq_false]
  intro c hc
  obtain ⟨m, hm, hrec, -⟩ := Executor.contains_dirty.1 (Dict.mem_keys.1 hc)
  have hkept := (List.mem_filter.1 hm).2
  simp only [Bool.not_eq_true', decide_eq_false_iff_not] at hkept
  exact absurd hrec hkept

/-- What is reported of a standstill is so. -/
theorem quiescent_settleWith (order : Nat → List Waiting → List Waiting) (n : Nat) (b : Bench) :
    (settleWith order n b).2.quiescent = !(settleWith order n b).1.hasPending := by
  induction n generalizing b with
  | zero => rfl
  | succ n ih =>
    simp only [settleWith]
    split
    · rw [hasPending_triggered]
      rfl
    · exact ih _

theorem triggered_of_idle {b : Bench} (hx : b.executor.Indexed) (hp : b.hasPending = false) : b.triggered.2 = [] := by
  refine List.eq_nil_iff_forall_not_mem.2 fun k hk => ?_
  obtain ⟨c, hd, hr⟩ := Executor.mem_readersOf.1 hk
  have hpending : b.hasPending = true := (Executor.hasPending_iff hx).2 ⟨c, k, hd, (hx.mem_iff c k).1 hr⟩
  rw [hp] at hpending
  cases hpending

theorem settle_of_idle {b : Bench} (hx : b.executor.Indexed) (hp : b.hasPending = false) (k : Nat) :
    (b.settle k).2.rounds = 0 ∧ (b.settle k).2.quiescent = true ∧
      (b.settle k).1.engine.store.contacts = b.engine.store.contacts := by
  cases k with
  | zero => exact ⟨rfl, by simp [settle, settleWith, hp], rfl⟩
  | succ k =>
    simp only [settle, settleWith, triggered_of_idle hx hp]
    exact ⟨rfl, rfl, rfl⟩

theorem sameSetup_execute {b b' : Bench} {id : GadgetId} {force : Bool} {x : Execution}
    (h : b.execute id force = .ok (b', x)) : b.SameSetup b' := by
  obtain ⟨⟨r, inputs⟩, hs, h⟩ := ok_of_bind h
  have hr := (snapshot_eq_ok.1 hs).1
  have hb : _ = b' := congrArg Prod.fst (Except.ok.inj h)
  split at hb
  · rw [← hb]
    exact b.sameSetup_skip inputs hr
  · rw [← hb]
    exact b.sameSetup_fire inputs hr

end Patchbay.Bench

namespace Patchbay.Engine.Steady

open Bench

variable {P : Engine → Prop} (hP : Steady P)

include hP

theorem fire {b : Bench} (h : P b.engine) (id : GadgetId) (r : Registration) (inputs : PinValues) :
    P (b.fire id r inputs).1.engine := by
  obtain ⟨values, -, he, -⟩ := b.fire_cases id r inputs
  rw [he]
  exact hP.deliver h values

theorem turn {round : Round} (h : P round.bench.engine) (id : GadgetId) : P (round.turn id).bench.engine := by
  rcases round.turn_cases id with ⟨-, he⟩ | ⟨r, inputs, -, -, ⟨-, -, hb⟩ | ⟨-, -, hb⟩ | ⟨-, hb, -⟩⟩
  · rwa [he]
  · rw [hb]
    exact h
  · rw [hb]
    exact hP.fire h id r inputs
  · rwa [hb]

theorem wake {round : Round} (h : P round.bench.engine) (w : Waiting) : P (round.wake w).bench.engine := by
  rcases round.wake_cases w with ⟨-, hb⟩ | ⟨r, -, hb⟩
  · rwa [hb]
  · rw [hb]
    exact hP.fire h w.gadget r w.inputs

theorem runRound (order : List Waiting → List Waiting) {b : Bench} (h : P b.engine) (ids : List GadgetId) :
    P (runRound order b ids).1.engine := by
  have hturns : P (ids.foldl Round.turn { bench := b }).bench.engine :=
    foldl_keeps (P := fun round : Round => P round.bench.engine) (fun _ id _ h => hP.turn h id) h
  exact foldl_keeps (P := fun round : Round => P round.bench.engine) (fun _ w _ h => hP.wake h w) hturns

/-- What every call keeps, running gadgets to a standstill keeps. -/
theorem settleWith (order : Nat → List Waiting → List Waiting) (n : Nat) {b : Bench} (h : P b.engine) :
    P (settleWith order n b).1.engine := by
  induction n generalizing b with
  | zero => exact h
  | succ n ih =>
    have htriggered : P b.triggered.1.engine := hP.takeMail _ h
    simp only [Bench.settleWith]
    split
    · exact htriggered
    · exact ih (hP.runRound (order n) htriggered _)

theorem execute {b b' : Bench} (h : P b.engine) {id : GadgetId} {force : Bool} {x : Execution}
    (he : b.execute id force = .ok (b', x)) : P b'.engine := by
  obtain ⟨⟨r, inputs⟩, -, he⟩ := ok_of_bind he
  have hb : _ = b' := congrArg Prod.fst (Except.ok.inj he)
  split at hb
  · rw [← hb]
    exact h
  · rw [← hb]
    exact hP.fire h id r inputs

end Patchbay.Engine.Steady

namespace Patchbay.Bench

theorem truncations_turn (round : Round) (id : GadgetId) :
    round.bench.engine.totals.truncations ≤ (round.turn id).bench.engine.totals.truncations :=
  (Engine.steady_truncations _).turn (Nat.le_refl _) id

theorem truncations_wake (round : Round) (w : Waiting) :
    round.bench.engine.totals.truncations ≤ (round.wake w).bench.engine.totals.truncations :=
  (Engine.steady_truncations _).wake (Nat.le_refl _) w

end Patchbay.Bench
