import Patchbay.Proofs.Host.Standstill
import Patchbay.Proofs.Host.Proposers

/-! What a board reports of a standstill. Where gadgets were run the report is true whatever was left over from before;
where a plan is refused none are run, and the report says that all is quiet without a look. -/

namespace Patchbay

/-! ## Who reads what -/

namespace Installation

variable {g : Graph} {p : Preparation}

/-- The index of readers is kept by every step. -/
theorem indexed_step {s s' : Progress} {d : GraphDiff} (h : s.installation.executor.Indexed)
    (hs : step g p s d = .ok s') : s'.installation.executor.Indexed := by
  rcases step_cases hs with rfl | ⟨_, _, rfl⟩ | ⟨_, _, _, _, _, hx, -, rfl⟩ | ⟨_, _, _, _, -, hx, rfl⟩ |
    ⟨_, _, _, -, rfl⟩
  · exact h
  · exact h
  · exact h.unregister hx
  · exact h.register hx
  · exact h

theorem indexed_stepOrSkip {s : Progress} (h : s.installation.executor.Indexed) (d : GraphDiff) :
    (stepOrSkip g p s d).installation.executor.Indexed := by
  unfold stepOrSkip
  split
  · next hs => exact indexed_step h hs
  · exact h

theorem indexed_install {i : Installation} (h : i.executor.Indexed) (diffs : List GraphDiff) :
    (i.install g diffs p).1.executor.Indexed :=
  foldl_keeps (P := fun s : Progress => s.installation.executor.Indexed) (fun _ d _ hs => indexed_stepOrSkip hs d) h

theorem indexed_subscribe {i : Installation} (h : i.executor.Indexed) : i.subscribe.executor.Indexed :=
  ⟨h.mem_iff, h.inhabited⟩

end Installation

namespace LiveBoard

/-- A contact changed that a gadget in place reads, and the executor has not acted on it. -/
def Pending (b : LiveBoard) : Prop :=
  ∃ contact gadget, (b.installation.executor.dirty b.store).contains contact = true ∧
    b.installation.executor.Reads gadget contact

/-- The report says of the board whether it is at a standstill. -/
def Tells (b : LiveBoard) (report : UpdateReport) : Prop := report.quiescent = true ↔ ¬b.Pending

def Indexed (b : LiveBoard) : Prop := b.installation.executor.Indexed

variable {b b' : LiveBoard} {report : UpdateReport}

theorem Indexed.hasPending_iff (h : b.Indexed) : b.installation.bench.hasPending = true ↔ b.Pending :=
  Executor.hasPending_iff h

theorem Indexed.withBench (h : b.Indexed) {bench : Bench} (hs : b.installation.bench.SameSetup bench) :
    (b.withBench bench).Indexed := hs.indexed h

/-- Where gadgets are run, the report tells. -/
theorem Indexed.settle (h : b.Indexed) (propagation : PropagationStats) :
    (b.settle propagation).1.Indexed ∧ (b.settle propagation).1.Tells (b.settle propagation).2 := by
  have hindexed : (b.settle propagation).1.Indexed := h.withBench (Bench.sameSetup_settleWith ..)
  have hq : (b.settle propagation).2.quiescent = !(b.settle propagation).1.installation.bench.hasPending :=
    Bench.quiescent_settleWith ..
  refine ⟨hindexed, ?_⟩
  rw [Tells, hq, Bool.not_eq_true', ← Bool.not_eq_true, hindexed.hasPending_iff]

theorem Indexed.install (h : b.Indexed) (diffs : List GraphDiff) (p : Preparation) :
    (b.install diffs p).1.Indexed ∧ (b.install diffs p).1.Tells (b.install diffs p).2 := by
  have hinstalled : Indexed { b with installation := (b.installation.install b.graph diffs p).1 } :=
    Installation.indexed_install h diffs
  exact hinstalled.settle _

theorem Indexed.update (h : b.Indexed) {contact : ContactId} {value : Json}
    (hu : b.update contact value = .ok (b', report)) : b'.Indexed ∧ b'.Tells report := by
  obtain ⟨engine, stats, -, hs, he⟩ := update_cases hu
  have hsettled := (h.withBench hs).settle stats
  rwa [← he] at hsettled

theorem Indexed.execute (h : b.Indexed) {gadget : GadgetId}
    (hx : b.execute gadget = .ok (b', report)) : b'.Indexed ∧ b'.Tells report := by
  obtain ⟨bench, execution, -, hs, he⟩ := execute_cases hx
  cases he
  exact (h.withBench hs).settle {}

/-- A plan that is refused changes nothing about who waits to run, and its report says that nobody does. -/
theorem Indexed.applyPlan (h : b.Indexed) (w : Workshop) (plan : Plan) :
    (b.applyPlan w plan).1.Indexed ∧
      if (b.applyPlan w plan).2.receipt.isOk then (b.applyPlan w plan).1.Tells (b.applyPlan w plan).2.report
      else (b.applyPlan w plan).2.report.quiescent = true ∧ ((b.applyPlan w plan).1.Pending ↔ b.Pending) := by
  unfold LiveBoard.applyPlan
  obtain ⟨binder, receipt⟩ := b.binder.applyPlan (w.checkInstallation b.installation) plan
  have hb : Indexed { b with binder } := h
  cases hok : receipt.isOk with
  | true =>
    simp only [hok, if_true]
    exact hb.install _ _
  | false =>
    simp only [hok, Bool.false_eq_true, if_false]
    exact ⟨hb, trivial, Iff.rfl⟩

/-- Where no rounds are run, news of a contact that a gadget reads is left over. -/
theorem pending_of_update {contact : ContactId} {value : Json} {store : ContactStore} {n : Subscription}
    {gadget : GadgetId} (hu : b.update contact value = .ok (b', report)) (hrounds : b.maxRounds = 0)
    (hs : b.store.update contact value = .ok (store, true))
    (hl : (n, b.installation.executor.listener) ∈ b.store.listeners)
    (hr : b.installation.executor.Reads gadget contact) : b'.Pending := by
  obtain ⟨engine, stats, hp, -, he⟩ := update_cases hu
  have hrounds' : (b.withBench { b.installation.bench with engine }).maxRounds = 0 := hrounds
  have hb' : b' = b.withBench { b.installation.bench with engine } :=
    (congrArg Prod.fst he).trans (settle_of_no_rounds hrounds' stats)
  obtain ⟨s, changed, current, hs', -, rfl, -⟩ := Engine.propagate_cases hp
  obtain ⟨rfl, rfl⟩ := Prod.mk.inj (Except.ok.inj (hs'.symm.trans hs))
  obtain ⟨c, joined, -, -, ⟨-, hf, -⟩ | ⟨-, -, change, hid, hstore⟩⟩ := ContactStore.update_cases hs
  · cases hf
  -- the letter about the write is there before the call walks on, and a walk takes no letters
  have hletter : (⟨b.installation.executor.listener, change⟩ : Letter) ∈ s.mail := by
    rw [hstore]
    exact List.mem_append_left _ (List.mem_reverse.2 (List.mem_map.2 ⟨_, hl, rfl⟩))
  obtain ⟨letters, hmail, -⟩ := (Propagation.advances_walk b.installation.bench.engine.limits
    (Propagation.start s contact current true)).news
  rw [hb']
  have hin : (⟨b.installation.executor.listener, change⟩ : Letter) ∈ letters ++ s.mail :=
    List.mem_append_right letters hletter
  exact ⟨contact, gadget, Executor.contains_dirty.2 ⟨_, hmail ▸ hin, rfl, hid⟩, hr⟩

theorem indexed_of_start {w : Workshop} {binder : Binder} {limits : PropagationLimits} {maxRounds : Nat} {board : Board}
    (h : start w binder limits maxRounds board = .ok (b, report)) : b.Indexed := by
  obtain ⟨c, receipt, p, -, -, he⟩ := start_eq_ok.1 h
  obtain rfl : b = _ := congrArg Prod.fst he
  have hnew : Executor.Indexed {} := (Executor.Built.new 0).indexed
  have hfresh : (fresh c limits maxRounds board).Indexed := Installation.indexed_subscribe hnew
  exact (hfresh.install _ p).1

theorem Indexed.turn (h : b.Indexed) {w : Workshop} (ht : b.Turns w b') : b'.Indexed := by
  cases ht with
  | unchanged => exact h
  | applyPlan plan => exact (h.applyPlan w plan).1
  | update hu => exact (h.update hu).1
  | execute hx => exact (h.execute hx).1

end LiveBoard

namespace Host

theorem lasting_indexed (h : Host) : h.Lasting LiveBoard.Indexed where
  start := LiveBoard.indexed_of_start
  turn hb ht := hb.turn ht
  takeNotes := id
  listen _ := id

variable {s : Host}

/-- A board that answered is in its place again, without its notes. -/
theorem Tidy.of_onBoard_eq_ok {α : Type} (ht : s.Tidy) {id : BoardId} {f : LiveBoard → LiveBoard × Except HostError α}
    {a : α} (hf : ∀ b : LiveBoard, b.Turns s.workshop (f b).1) (h : (s.onBoard id f).2 = .ok a) :
    ∃ b, s.boards.get? id = some b ∧ (f b).2 = .ok a ∧
      (s.onBoard id f).1.boards.get? id = some (f b).1.takeNotes.1 := by
  cases hb : s.boards.get? id with
  | none =>
    rw [Host.onBoard, hb] at h
    cases h
  | some b =>
    have hid : (f b).1.id = id := (hf b).id_eq.trans (ht id b hb).1
    rw [Host.onBoard, hb] at h
    exact ⟨b, rfl, h, get?_onBoard hb hid⟩

theorem of_orUnchanged_eq_ok {α : Type} {b : LiveBoard} {x : Except HostError (LiveBoard × α)} {a : α}
    (h : (orUnchanged b x).2 = .ok a) : x = .ok ((orUnchanged b x).1, a) := by
  unfold orUnchanged at h ⊢
  split at h
  · next b' a' =>
    cases h
    rfl
  · cases h

theorem of_insistOn_eq_ok {id : BoardId} {plan : Plan} {outcome : PlanOutcome}
    (h : (s.insistOn id plan).2 = .ok outcome) : (s.applyPlan id plan).2 = .ok outcome := by
  obtain ⟨outcome', ho, hgranted⟩ := ok_of_bind h
  unfold granted at hgranted
  split at hgranted
  · cases hgranted
    exact ho
  · cases hgranted

/-- A request that is answered with an outcome has put its plan to the board. -/
theorem of_request_eq_ok {id : BoardId} {request : PlanRequest} {outcome : PlanOutcome}
    (h : (s.request id request).2 = .ok outcome) :
    (s.applyPlan id request.plan).2 = .ok outcome ∧ (s.request id request).1 = (s.applyPlan id request.plan).1 := by
  cases request with
  | apply plan => exact ⟨h, rfl⟩
  | mount slot gadget template =>
    simp only [request, mount] at h ⊢
    split at h
    · cases h
    next hin =>
    split at h
    · cases h
    next hknown =>
    rw [if_neg hin, if_neg hknown]
    exact ⟨of_insistOn_eq_ok h, rfl⟩
  | unmount gadget =>
    simp only [request, unmount] at h ⊢
    split at h
    · cases h
    next hb =>
    split at h
    · next hthere =>
      rw [if_pos hthere]
      exact ⟨of_insistOn_eq_ok h, rfl⟩
    · cases h

/-- A report says of the board in a place whether it is at a standstill. -/
def Tells (s : Host) (id : BoardId) (report : UpdateReport) : Prop :=
  ∃ b, s.boards.get? id = some b ∧ (report.quiescent = true ↔ ¬b.Pending)

/-- After any events, and whatever was left over from them, a report says that all is quiet exactly where no gadget in
place reads a contact that changed; only where a plan is refused it says so in any case, and leaves what was pending
pending. -/
theorem reports_tell (h : Host) (hboards : h.boards = ∅) (events : List HostEvent) (id : BoardId) :
    let s := h.after events
    (∀ contact value report, (s.update id contact value).2 = .ok report →
      (s.update id contact value).1.Tells id report) ∧
    (∀ gadget report, (s.execute id gadget).2 = .ok report → (s.execute id gadget).1.Tells id report) ∧
    ∀ request outcome, (s.request id request).2 = .ok outcome →
      if outcome.receipt.isOk then (s.request id request).1.Tells id outcome.report
      else outcome.report.quiescent = true ∧ ∃ b b', s.boards.get? id = some b ∧
        (s.request id request).1.boards.get? id = some b' ∧ (b'.Pending ↔ b.Pending) := by
  intro s
  have hindexed : s.All LiveBoard.Indexed := h.lasting_indexed.all_after hboards events
  have htidy : s.Tidy := tidy_after hboards events
  refine ⟨fun contact value report hr => ?_, fun gadget report hr => ?_, fun request outcome hr => ?_⟩
  · obtain ⟨b, hb, hr, hs⟩ := htidy.of_onBoard_eq_ok (fun _ => turns_orUnchanged fun _ _ => .update) hr
    exact ⟨_, hs, ((hindexed id b hb).update (of_orUnchanged_eq_ok hr)).2⟩
  · obtain ⟨b, hb, hr, hs⟩ := htidy.of_onBoard_eq_ok (fun _ => turns_orUnchanged fun _ _ => .execute) hr
    exact ⟨_, hs, ((hindexed id b hb).execute (of_orUnchanged_eq_ok hr)).2⟩
  · obtain ⟨hr, hsame⟩ := of_request_eq_ok hr
    obtain ⟨b, hb, hr, hs⟩ := htidy.of_onBoard_eq_ok (fun _ => .applyPlan request.plan) hr
    obtain rfl : (b.applyPlan s.workshop request.plan).2 = outcome := Except.ok.inj hr
    have htold := ((hindexed id b hb).applyPlan s.workshop request.plan).2
    rw [hsame]
    split at htold
    · next hok =>
      rw [if_pos hok]
      exact ⟨_, hs, htold⟩
    · next hno =>
      rw [if_neg hno]
      exact ⟨htold.1, b, _, hb, hs, htold.2⟩

/-- The contact of the first stage's input. -/
def relayIn : ContactId := pinContact (Naming.spelled.gadgetNode { id := "g", template := "passthrough" }) "in"

/-- A host that runs no gadgets, with a board on which nothing happened yet. -/
def idle : Host := after { naming := .spelled, config := { maxRounds := 0 } } [.call (.start relayBoard)]

theorem indexed_idle : idle.All LiveBoard.Indexed :=
  (lasting_indexed { naming := .spelled, config := { maxRounds := 0 } }).all_after rfl [.call (.start relayBoard)]

theorem reports_tell_idle :
    ∃ report, (idle.update "b" relayIn (.num (.int 1))).2 = .ok report ∧
      (idle.update "b" relayIn (.num (.int 1))).1.Tells "b" report := by
  have hok : (idle.update "b" relayIn (.num (.int 1))).2.toOption.isSome = true := by decide +kernel
  cases hr : (idle.update "b" relayIn (.num (.int 1))).2 with
  | ok report =>
    have htold := (reports_tell { naming := .spelled, config := { maxRounds := 0 } } rfl [.call (.start relayBoard)] "b").1
    exact ⟨report, rfl, htold relayIn _ report hr⟩
  | error e =>
    rw [hr] at hok
    cases hok

/-- The first stage has yet to read what was written to it, and the report on a plan for a wire that is not there says
that all is quiet. -/
theorem quiet_report_while_pending :
    let s := (idle.update "b" relayIn (.num (.int 1))).1
    let request : PlanRequest := .apply { edit := .removeWire "x" }
    ∃ outcome b, (s.request "b" request).2 = .ok outcome ∧ (s.request "b" request).1.boards.get? "b" = some b ∧
      outcome.receipt.isOk = false ∧ outcome.report.quiescent = true ∧ b.Pending := by
  intro s request
  have htidy : idle.Tidy := tidy_after rfl _
  have hready : (idle.boards.get? "b").any (fun b => b.maxRounds = 0 ∧
      (b.store.update relayIn (.num (.int 1))).toOption.any (·.2) ∧
      (1, b.installation.executor.listener) ∈ b.store.listeners ∧
      (b.installation.executor.gadgets.get? "g").any fun r => relayIn ∈ r.mount.inputs.values) = true := by
    decide +kernel
  have hupdate : (idle.update "b" relayIn (.num (.int 1))).2.toOption.isSome = true := by decide +kernel
  have hrefused : (s.request "b" request).2.toOption.any (fun outcome => !outcome.receipt.isOk) = true := by
    decide +kernel
  obtain ⟨report, hu⟩ := Option.isSome_iff_exists.1 hupdate
  obtain ⟨b₀, hb₀, hu, hs⟩ := htidy.of_onBoard_eq_ok (fun _ => turns_orUnchanged fun _ _ => .update)
    (toOption_eq_some.1 hu)
  rw [hb₀, Option.any_some, decide_eq_true_iff] at hready
  obtain ⟨hrounds, hwritten, hl, hread⟩ := hready
  obtain ⟨⟨store, changed⟩, hstore, rfl⟩ := (Option.any_eq_true ..).1 hwritten
  obtain ⟨r, hr, hmem⟩ := (Option.any_eq_true ..).1 hread
  have hu := of_orUnchanged_eq_ok hu
  have hpending := LiveBoard.pending_of_update hu hrounds (toOption_eq_some.1 hstore) hl ⟨r, hr, of_decide_eq_true hmem⟩
  obtain ⟨outcome, ho, hno⟩ := (Option.any_eq_true ..).1 hrefused
  have ho := toOption_eq_some.1 ho
  obtain ⟨b, hb, hout, hs'⟩ := (htidy.onBoard "b" _).of_onBoard_eq_ok (fun _ => .applyPlan request.plan) ho
  -- the board that the request finds is the one that was written to
  obtain rfl := Option.some.inj (hs.symm.trans hb)
  have hindexed := ((indexed_idle "b" b₀ hb₀).update hu).1
  have htold := (LiveBoard.Indexed.applyPlan (b := LiveBoard.takeNotes _ |>.1) hindexed s.workshop
    { edit := .removeWire "x" }).2
  rw [Bool.not_eq_true'] at hno
  rw [Except.ok.inj hout, hno] at htold
  exact ⟨outcome, _, ho, hs', hno, htold.1, htold.2.2 hpending⟩

end Host

end Patchbay
