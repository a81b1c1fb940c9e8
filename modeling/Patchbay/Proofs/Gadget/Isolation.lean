import Patchbay.Gadget.Arithmetic
import Patchbay.Proofs.Gadget.Answer

/-! Failure is isolated. A gadget that always fails takes triggers and turns, and may make for a round in which no other
gadget has one, but whatever is done to a bench, the engine and the other gadgets fare as they do without it. -/

namespace Patchbay

/-- Whatever it is called with, the gadget fails. -/
def Gadget.AlwaysFails (g : Gadget) : Prop := ∀ earlier call, ∃ cause, (g.process earlier call).result = .error cause

theorem Gadget.alwaysFails_failing : Gadget.failing.AlwaysFails := fun _ _ => ⟨_, rfl⟩

/-- A gadget that is registered is entered as a reader of its input contacts. -/
theorem Executor.register_readers {x x' : Executor} {id : GadgetId} {gadget : Gadget} {mount : Mount}
    (h : x.register id gadget mount = .ok x') : x'.readers = mount.inputs.values.foldl (addReader id) x.readers := by
  unfold register at h
  split at h
  · cases h
  split at h
  · cases h
  · cases h
    rfl

namespace Bench

/-! ## The order in which gadgets answer -/

/-- A gadget that waits answers after those with less delay, and before the others that had their turn later. -/
theorem byDelay_cons (w : Waiting) (rest : List Waiting) :
    ∃ before after, byDelay (w :: rest) = before ++ w :: after ∧ byDelay rest = before ++ after ∧
      (∀ v ∈ before, v.delay < w.delay) ∧ ∀ v ∈ after, w.delay ≤ v.delay := by
  have htrans (u v w : Waiting) (huv : decide (u.delay ≤ v.delay) = true) (hvw : decide (v.delay ≤ w.delay) = true) :
      decide (u.delay ≤ w.delay) = true :=
    decide_eq_true (Nat.le_trans (of_decide_eq_true huv) (of_decide_eq_true hvw))
  have htotal (v w : Waiting) : (decide (v.delay ≤ w.delay) || decide (w.delay ≤ v.delay)) = true := by
    simpa using Nat.le_total v.delay w.delay
  obtain ⟨before, after, hcons, hrest, hbefore⟩ := List.mergeSort_cons htrans htotal w rest
  have hsorted := List.pairwise_mergeSort htrans htotal (w :: rest)
  rw [hcons, List.pairwise_append, List.pairwise_cons] at hsorted
  obtain ⟨-, ⟨hafter, -⟩, -⟩ := hsorted
  exact ⟨before, after, hcons, hrest, by simpa using hbefore, by simpa using hafter⟩

/-- There is one way to cut a list of gadgets that wait into those that answer before a time and those that do not. -/
theorem cut_inj {delay : Nat} {before after before' after' : List Waiting} (h : before ++ after = before' ++ after')
    (hbefore : ∀ v ∈ before, v.delay < delay) (hafter : ∀ v ∈ after, delay ≤ v.delay)
    (hbefore' : ∀ v ∈ before', v.delay < delay) (hafter' : ∀ v ∈ after', delay ≤ v.delay) :
    before = before' ∧ after = after' := by
  have hcut {l m : List Waiting} (hl : ∀ v ∈ l, v.delay < delay) (hm : ∀ v ∈ m, delay ≤ v.delay) :
      (l ++ m).filter (fun v => v.delay < delay) = l := by
    rw [List.filter_append, List.filter_eq_self.2 fun v hv => decide_eq_true (hl v hv),
      List.filter_eq_nil_iff.2 fun v hv => by simpa using hm v hv, List.append_nil]
  have hsame : before = before' := by rw [← hcut hbefore hafter, h, hcut hbefore' hafter']
  exact ⟨hsame, List.append_cancel_left (hsame ▸ h)⟩

/-- The order in which gadgets that wait answer does not depend on whether some of them are there. -/
theorem filter_byDelay (p : Waiting → Bool) (waiting : List Waiting) :
    (byDelay waiting).filter p = byDelay (waiting.filter p) := by
  induction waiting with
  | nil => simp [byDelay]
  | cons w rest ih =>
    obtain ⟨before, after, hcons, hrest, hbefore, hafter⟩ := byDelay_cons w rest
    rw [hrest, List.filter_append] at ih
    rw [hcons, List.filter_append, List.filter_cons, List.filter_cons]
    split
    · obtain ⟨before', after', hcons', hrest', hbefore', hafter'⟩ := byDelay_cons w (rest.filter p)
      obtain ⟨rfl, rfl⟩ := cut_inj (ih.trans hrest') (fun v hv => hbefore v (List.mem_of_mem_filter hv))
        (fun v hv => hafter v (List.mem_of_mem_filter hv)) hbefore' hafter'
      exact hcons'.symm
    · exact ih

/-! ## One bench with the gadget, and one without it -/

/-- The second bench is the first one with a gadget more, which always fails. -/
structure Shadows (id : GadgetId) (b c : Bench) : Prop where
  engine_eq : c.engine = b.engine
  now_eq : c.now = b.now
  number_eq : c.executor.number = b.executor.number
  readers : ∀ k, k ≠ id → ∀ contact,
    (c.executor.readers.getD contact ∅).contains k = (b.executor.readers.getD contact ∅).contains k
  others : ∀ k, k ≠ id → c.executor.gadgets.get? k = b.executor.gadgets.get? k
  absent : b.executor.gadgets.get? id = none
  fails : ∀ r, c.executor.gadgets.get? id = some r → r.gadget.AlwaysFails

variable {b c : Bench} {id k : GadgetId} {r : Registration} {x : Execution}

namespace Shadows

theorem of_register {gadget : Gadget} {mount : Mount} {executor : Executor}
    (hr : b.executor.register id gadget mount = .ok executor) (hfails : gadget.AlwaysFails) :
    Shadows id b { b with executor } := by
  have hreaders := Executor.register_readers hr
  obtain ⟨hnew, -, readers, rfl⟩ := Executor.register_cases hr
  refine ⟨rfl, rfl, rfl, fun k hk contact => ?_, fun k hk => Dict.get?_insert_of_ne _ hk _, hnew, fun r hr' => ?_⟩
  · rw [hreaders, Bool.eq_iff_iff, Executor.contains_foldl_addReader]
    exact or_iff_right fun hid => hk hid.2
  · rw [Dict.get?_insert_self] at hr'
    cases hr'
    exact hfails

/-! ## One gadget -/

theorem snapshot_eq (h : Shadows id b c) (hk : k ≠ id) : c.snapshot k = b.snapshot k := by
  have hread (r : Registration) : c.readInputs r = b.readInputs r :=
    readInputs_congr rfl fun pin _ => by rw [pinValue, pinValue, h.engine_eq]
  simp only [snapshot, Executor.registration, h.others k hk, hread]

theorem note (h : Shadows id b c) (r : Registration) (hx : x.gadget ≠ id) :
    Shadows id (b.note r x).1 (c.note r x).1 where
  engine_eq := h.engine_eq
  now_eq := h.now_eq
  number_eq := h.number_eq
  readers := h.readers
  others k hk := by
    simp only [Bench.note, setRegistration, Dict.get?_insert, h.others k hk]
  absent := (Dict.get?_insert_of_ne _ hx.symm _).trans h.absent
  fails r' hr' := h.fails r' ((Dict.get?_insert_of_ne _ hx.symm _).symm.trans hr')

/-- What is noted of the gadget that fails concerns no other. -/
theorem note_self (h : Shadows id b c) (hr : r.gadget.AlwaysFails) (hx : x.gadget = id) :
    Shadows id b (c.note r x).1 where
  engine_eq := h.engine_eq
  now_eq := h.now_eq
  number_eq := h.number_eq
  readers := h.readers
  others k hk := (Dict.get?_insert_of_ne _ (hx ▸ hk) _).trans (h.others k hk)
  absent := h.absent
  fails r' hr' := by
    simp only [Bench.note, setRegistration, hx, Dict.get?_insert_self, Option.some.injEq] at hr'
    rw [← hr']
    exact hr

/-- Engines that were alike have changed alike, whatever was written to the journals. -/
theorem advance (h : Shadows id b c) (engine : Engine) (now : Instant) (journal journal' : List Note) :
    Shadows id { b with engine, now, journal } { c with engine, now, journal := journal' } :=
  { h with engine_eq := rfl, now_eq := rfl }

theorem fire (h : Shadows id b c) (hk : k ≠ id) (r : Registration) (inputs : PinValues) :
    Shadows id (b.fire k r inputs).1 (c.fire k r inputs).1 ∧ (c.fire k r inputs).2 = (b.fire k r inputs).2 ∧
      (b.fire k r inputs).2.gadget ≠ id := by
  simp only [Bench.fire, h.now_eq, h.engine_eq]
  cases (r.gadget.process r.calls ⟨b.now, inputs, ⟨k, r.mount.params⟩⟩).result with
  | error cause =>
    refine ⟨note (h.advance ..) _ ?_, rfl, hk⟩
    exact hk
  | ok outputs =>
    refine ⟨note (h.advance ..) _ ?_, rfl, hk⟩
    exact hk

theorem fire_self (h : Shadows id b c) (hr : r.gadget.AlwaysFails) (inputs : PinValues) :
    Shadows id b (c.fire id r inputs).1 ∧ (c.fire id r inputs).2.gadget = id := by
  obtain ⟨cause, hcause⟩ := hr r.calls ⟨c.now, inputs, ⟨id, r.mount.params⟩⟩
  simp only [Bench.fire, hcause]
  exact ⟨note_self { h with } hr rfl, rfl⟩

end Shadows

/-! ## One round -/

namespace Round

/-- The second round is the first one with turns and answers more of a gadget that always fails. -/
structure Shadows (id : GadgetId) (p q : Round) : Prop where
  bench : Bench.Shadows id p.bench q.bench
  done : q.done.erase id = p.done
  named : ∀ k x, q.done.get? k = some x → x.gadget = k
  waiting : q.waiting.filter (·.gadget ≠ id) = p.waiting

variable {p q : Round}

namespace Shadows

theorem named_finish (h : Shadows id p q) (result : Bench × Execution) (k : GadgetId) (x : Execution)
    (hk : (q.finish result).done.get? k = some x) : x.gadget = k := by
  obtain ⟨rfl, rfl⟩ | ⟨-, hk⟩ := Dict.get?_insert_eq_some.1 hk
  · rfl
  · exact h.named k x hk

theorem finish (h : Shadows id p q) {result result' : Bench × Execution}
    (hb : Bench.Shadows id result.1 result'.1) (hx : result'.2 = result.2) (hne : result.2.gadget ≠ id) :
    Shadows id (p.finish result) (q.finish result') where
  bench := hb
  done := by rw [Round.finish, Round.finish, hx, Dict.erase_insert, if_neg hne, h.done]
  named := h.named_finish result'
  waiting := h.waiting

/-- The gadget that fails adds to its own executions alone. -/
theorem finish_self (h : Shadows id p q) {result : Bench × Execution} (hb : Bench.Shadows id p.bench result.1)
    (hx : result.2.gadget = id) : Shadows id p (q.finish result) where
  bench := hb
  done := by rw [Round.finish, Dict.erase_insert, if_pos hx, h.done]
  named := h.named_finish result
  waiting := h.waiting

theorem turn (h : Shadows id p q) (hk : k ≠ id) : Shadows id (p.turn k) (q.turn k) := by
  simp only [Round.turn, h.bench.snapshot_eq hk]
  split
  · exact h
  next r inputs hs =>
  split
  · exact h.finish (h.bench.note r hk) rfl hk
  split
  · obtain ⟨hb, hx, hne⟩ := h.bench.fire hk r inputs
    exact h.finish hb hx hne
  · refine { h with waiting := ?_ }
    rw [List.filter_append, h.waiting]
    simp [hk]

theorem turn_self (h : Shadows id p q) : Shadows id p (q.turn id) := by
  simp only [Round.turn]
  split
  · exact h
  next r inputs hs =>
  have hfails := h.bench.fails r (snapshot_eq_ok.1 hs).1
  split
  · exact h.finish_self (h.bench.note_self hfails rfl) rfl
  split
  · obtain ⟨hb, hx⟩ := h.bench.fire_self hfails inputs
    exact h.finish_self hb hx
  · refine { h with waiting := ?_ }
    rw [List.filter_append, h.waiting]
    simp

/-- A gadget that is not in place has no turn. -/
theorem turn_absent (h : Shadows id p q) : p.turn id = p := by
  simp only [Round.turn, snapshot, Executor.registration, h.bench.absent, bind, Except.bind]

theorem foldl_turn_absent (h : Shadows id p q) (ids : List GadgetId) :
    ids.foldl Round.turn p = (ids.filter (· ≠ id)).foldl Round.turn p := by
  induction ids generalizing p q with
  | nil => rfl
  | cons k rest ih =>
    by_cases hk : k = id
    · rw [List.foldl_cons, List.filter_cons_of_neg (by simpa using hk), hk, h.turn_absent, ih h]
    · rw [List.foldl_cons, List.filter_cons_of_pos (by simpa using hk), List.foldl_cons, ih (h.turn hk)]

/-- Turns of the gadget that fails go by unnoticed, wherever they come in between. -/
theorem foldl_turn (h : Shadows id p q) (ids : List GadgetId) :
    Shadows id ((ids.filter (· ≠ id)).foldl Round.turn p) (ids.foldl Round.turn q) := by
  induction ids generalizing p q with
  | nil => exact h
  | cons k rest ih =>
    by_cases hk : k = id
    · rw [List.foldl_cons, List.filter_cons_of_neg (by simpa using hk), hk]
      exact ih h.turn_self
    · rw [List.foldl_cons, List.filter_cons_of_pos (by simpa using hk), List.foldl_cons]
      exact ih (h.turn hk)

theorem turns {ids ids' : List GadgetId} (hids : ids'.filter (· ≠ id) = ids.filter (· ≠ id)) (h : Shadows id p q) :
    Shadows id (ids.foldl Round.turn p) (ids'.foldl Round.turn q) := by
  rw [h.foldl_turn_absent, ← hids]
  exact h.foldl_turn ids'

theorem wake (h : Shadows id p q) {w : Waiting} (hw : w.gadget ≠ id) : Shadows id (p.wake w) (q.wake w) := by
  simp only [Round.wake, Executor.registration, h.bench.others _ hw]
  split
  · exact h
  next r hr =>
  obtain ⟨hb, hx, hne⟩ := h.bench.fire hw r w.inputs
  exact h.finish hb hx hne

theorem wake_self (h : Shadows id p q) {w : Waiting} (hw : w.gadget = id) : Shadows id p (q.wake w) := by
  unfold Round.wake
  rw [hw]
  split
  · exact h
  next r hr =>
  obtain ⟨hb, hx⟩ := h.bench.fire_self (h.bench.fails r (Executor.registration_eq_ok.1 hr)) w.inputs
  exact h.finish_self hb hx

theorem foldl_wake (h : Shadows id p q) (ws : List Waiting) :
    Shadows id ((ws.filter (·.gadget ≠ id)).foldl Round.wake p) (ws.foldl Round.wake q) := by
  induction ws generalizing p q with
  | nil => exact h
  | cons w rest ih =>
    by_cases hw : w.gadget = id
    · rw [List.foldl_cons, List.filter_cons_of_neg (by simpa using hw)]
      exact ih (h.wake_self hw)
    · rw [List.foldl_cons, List.filter_cons_of_pos (by simpa using hw), List.foldl_cons]
      exact ih (h.wake hw)

theorem values (h : Shadows id p q) : q.done.values.filter (·.gadget ≠ id) = p.done.values := by
  have hnamed : ∀ e ∈ q.done.entries, (decide (e.2.gadget ≠ id)) = decide (e.1 ≠ id) := fun e he => by
    rw [h.named e.1 e.2 (Dict.get?_eq_some_iff.2 he)]
  rw [← h.done, Dict.values, Dict.values, List.filter_map]
  exact congrArg _ (List.filter_congr hnamed)

end Shadows

end Round

namespace Shadows

theorem runRound (h : Shadows id b c) {ids ids' : List GadgetId} (hids : ids'.filter (· ≠ id) = ids.filter (· ≠ id)) :
    Shadows id (runRound byDelay b ids).1 (runRound byDelay c ids').1 ∧
      (runRound byDelay c ids').2.filter (·.gadget ≠ id) = (runRound byDelay b ids).2 := by
  have hstart : Round.Shadows id { bench := b } { bench := c } := ⟨h, rfl, nofun, rfl⟩
  have hturns := hstart.turns hids
  have hend := hturns.foldl_wake (byDelay (ids'.foldl Round.turn { bench := c }).waiting)
  rw [filter_byDelay, hturns.waiting] at hend
  exact ⟨hend.bench, hend.values⟩

theorem listener_eq (h : Shadows id b c) : c.executor.listener = b.executor.listener := by
  rw [Executor.listener, Executor.listener, h.number_eq]

/-- The same gadgets are triggered, except for the one that fails. -/
theorem triggered (h : Shadows id b c) :
    Shadows id b.triggered.1 c.triggered.1 ∧ c.triggered.2.filter (· ≠ id) = b.triggered.2.filter (· ≠ id) := by
  have hdirty : c.executor.dirty c.engine.store = b.executor.dirty b.engine.store := by
    rw [Executor.dirty, Executor.dirty, h.listener_eq, h.engine_eq]
  refine ⟨{ h with engine_eq := ?_ }, ?_⟩
  · simp only [Bench.triggered, Executor.triggered, h.engine_eq, h.listener_eq]
  · simp only [Bench.triggered, Executor.triggered, hdirty, ← Dict.keys_erase]
    refine congrArg _ (Names.ext_contains fun k => ?_)
    rw [Bool.eq_iff_iff, Dict.contains_erase, Dict.contains_erase]
    refine and_congr_right fun hk => ?_
    rw [← Dict.mem_keys, ← Dict.mem_keys, Executor.mem_readersOf, Executor.mem_readersOf]
    simp only [h.readers k hk]

end Shadows

/-! ## Rounds -/

/-- The executor has heard nothing that it has not acted on. -/
def Unstirred (b : Bench) : Prop := ∀ m ∈ b.engine.store.mail, m.recipient ≠ b.executor.listener

theorem unstirred_triggered (b : Bench) : b.triggered.1.Unstirred := by
  intro m hm
  exact of_decide_eq_false ((Bool.not_eq_true' _).mp (List.mem_filter.1 hm).2)

theorem lettersTo_of_unstirred (h : b.Unstirred) : b.engine.store.lettersTo (· = b.executor.listener) = [] := by
  rw [ContactStore.lettersTo, List.filter_eq_nil_iff.2 fun m hm => by simpa using h m hm, List.reverse_nil]

theorem triggered_of_unstirred (h : b.Unstirred) : b.triggered = (b, []) := by
  have hkept : b.engine.store.mail.filter (fun m => !decide (m.recipient = b.executor.listener)) =
      b.engine.store.mail := List.filter_eq_self.2 fun m hm => by simpa using h m hm
  simp only [triggered, Executor.triggered, ContactStore.takeMail, Executor.dirty, hkept, lettersTo_of_unstirred h]
  rfl

theorem settle_of_unstirred (h : b.Unstirred) (n : Nat) : (b.settle n).1 = b ∧ (b.settle n).2.executions = [] := by
  cases n with
  | zero => exact ⟨rfl, rfl⟩
  | succ n =>
    simp only [settle, settleWith, triggered_of_unstirred h]
    exact ⟨rfl, rfl⟩

/-- Rounds begin with a round of the gadgets that are triggered, be it none. -/
theorem settle_succ (b : Bench) (n : Nat) :
    (b.settle (n + 1)).1 = ((runRound byDelay b.triggered.1 b.triggered.2).1.settle n).1 ∧
      (b.settle (n + 1)).2.executions = (runRound byDelay b.triggered.1 b.triggered.2).2 ++
        ((runRound byDelay b.triggered.1 b.triggered.2).1.settle n).2.executions := by
  by_cases hids : b.triggered.2 = []
  · -- no gadget has a turn in such a round, and it leaves nothing to be heard
    have hround : runRound byDelay b.triggered.1 [] = (b.triggered.1, []) := by
      simp only [runRound, List.foldl_nil, byDelay, List.mergeSort_nil]
      rfl
    obtain ⟨hsame, hnone⟩ := settle_of_unstirred b.unstirred_triggered n
    simp only [hids, hround, hsame, hnone, List.append_nil]
    simp [settle, settleWith, hids]
  · simp [settle, settleWith, hids]

theorem Shadows.settle (h : Shadows id b c) (n : Nat) :
    Shadows id (b.settle n).1 (c.settle n).1 ∧
      (c.settle n).2.executions.filter (·.gadget ≠ id) = (b.settle n).2.executions := by
  induction n generalizing b c with
  | zero => exact ⟨h, rfl⟩
  | succ n ih =>
    obtain ⟨htriggered, hids⟩ := h.triggered
    obtain ⟨hround, hexecutions⟩ := htriggered.runRound hids
    obtain ⟨hsettle, hrest⟩ := ih hround
    obtain ⟨hb, hbx⟩ := b.settle_succ n
    obtain ⟨hc, hcx⟩ := c.settle_succ n
    rw [hb, hc, hbx, hcx, List.filter_append, hexecutions, hrest]
    exact ⟨hsettle, rfl⟩

/-! ## Updates from outside -/

/-- Something that is done to the engine from outside at some time, and how many rounds may follow. -/
structure Stimulus where
  now : Instant
  call : Engine.Call
  maxRounds : Nat

def stimulate (b : Bench) (s : Stimulus) : Bench × Quiescence :=
  { b with engine := b.engine.occur s.call, now := s.now }.settle s.maxRounds

/-- One stimulus after the other, with what is reported of each. -/
def feed : Bench → List Stimulus → Bench × List Quiescence
  | b, [] => (b, [])
  | b, s :: rest =>
    let (b, report) := b.stimulate s
    let (b, reports) := b.feed rest
    (b, report :: reports)

theorem Shadows.stimulate (h : Shadows id b c) (s : Stimulus) :
    Shadows id (b.stimulate s).1 (c.stimulate s).1 ∧
      (c.stimulate s).2.executions.filter (·.gadget ≠ id) = (b.stimulate s).2.executions := by
  rw [Bench.stimulate, Bench.stimulate, h.engine_eq]
  exact (h.advance (b.engine.occur s.call) s.now b.journal c.journal).settle s.maxRounds

theorem Shadows.feed (h : Shadows id b c) (stimuli : List Stimulus) :
    Shadows id (b.feed stimuli).1 (c.feed stimuli).1 ∧
      (c.feed stimuli).2.map (·.executions.filter (·.gadget ≠ id)) = (b.feed stimuli).2.map (·.executions) := by
  induction stimuli generalizing b c with
  | nil => exact ⟨h, rfl⟩
  | cons s rest ih =>
    obtain ⟨hstimulus, hexecutions⟩ := h.stimulate s
    obtain ⟨hfeed, hreports⟩ := ih hstimulus
    refine ⟨hfeed, ?_⟩
    simp only [Bench.feed, List.map_cons]
    rw [hexecutions, hreports]

/-- A gadget that always fails is put in place on some bench, or it is not. Whatever is done to the engine from outside
and however many rounds may follow each time, the engine comes to be the same either way, and so do the other gadgets
with their calls and their counts, and they are executed the same times in the same order, with the same records. -/
theorem failure_isolated {gadget : Gadget} {mount : Mount} {executor : Executor}
    (hr : b.executor.register id gadget mount = .ok executor) (hfails : gadget.AlwaysFails) (stimuli : List Stimulus) :
    let without := b.feed stimuli
    let beside := { b with executor }.feed stimuli
    beside.1.engine = without.1.engine ∧ beside.1.executor.gadgets.erase id = without.1.executor.gadgets ∧
      beside.2.map (·.executions.filter (·.gadget ≠ id)) = without.2.map (·.executions) := by
  obtain ⟨hend, hreports⟩ := (Shadows.of_register hr hfails).feed stimuli
  refine ⟨hend.engine_eq, Dict.ext_get? fun k => ?_, hreports⟩
  rw [Dict.get?_erase]
  split
  · next hk => rw [hk, hend.absent]
  · next hk => exact hend.others k hk

/-- The gadgets of `echo`, and one that fails and reads what the other one writes. -/
def echoBesideFailing : Executor :=
  { echo.executor with
    gadgets := echo.executor.gadgets.insert "f" { gadget := .failing, mount := { inputs := Dict.singleton "in" "b" } }
    readers := echo.executor.readers.insert "b" (Names.ofNames ["f"]) }

/-- The gadget that fails is left for a round of its own. -/
theorem failure_isolated_echo :
    let stimuli : List Stimulus := [⟨0, .propagate "a" (.bool true), 3⟩]
    ({ echo with executor := echoBesideFailing }.feed stimuli).1.engine = (echo.feed stimuli).1.engine ∧
      ({ echo with executor := echoBesideFailing }.feed stimuli).2.map Quiescence.rounds = [2] ∧
      (echo.feed stimuli).2.map Quiescence.rounds = [1] := by
  intro stimuli
  have hr : echo.executor.register "f" .failing { inputs := Dict.singleton "in" "b" } = .ok echoBesideFailing := rfl
  refine ⟨?_, by cbv, by cbv⟩
  exact (failure_isolated hr Gadget.alwaysFails_failing stimuli).1

end Bench

end Patchbay
