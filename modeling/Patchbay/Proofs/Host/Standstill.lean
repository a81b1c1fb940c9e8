import Patchbay.Proofs.Host.Lasting
import Patchbay.Proofs.Propagation.History

/-! Boards that are given no rounds. Their gadgets stand still, and all that becomes of what contacts hold is what is
written to them and carried on. -/

namespace Patchbay

/-- The contact holds null, and null makes no difference to it. -/
def ContactStore.still (s : ContactStore) (c : ContactId) : Bool :=
  (s.value c).toOption.any Json.isNull && (s.changeOf c .null).isNone

theorem ContactStore.of_still {s : ContactStore} {c : ContactId} (h : s.still c = true) :
    s.value c = .ok .null ∧ s.write (c, .null) = s := by
  obtain ⟨hvalue, hchange⟩ := Bool.and_eq_true_iff.1 h
  obtain ⟨v, hv, hnull⟩ := (Option.any_eq_true ..).1 hvalue
  refine ⟨Json.isNull_iff.1 hnull ▸ toOption_eq_some.1 hv, ?_⟩
  rcases s.write_cases (c, .null) with ⟨-, hw⟩ | ⟨_, _, -, -, -, hsome, -⟩
  · exact hw
  · rw [hsome] at hchange
    cases hchange

theorem Installation.store_install {i : Installation} {g : Graph} {diffs : List GraphDiff} {p : Preparation}
    {s : Progress} (hs : diffs.foldl (stepOrSkip g p) { installation := i } = s)
    (hstill : ∀ c ∈ s.sources.keys, s.installation.store.still c = true) :
    (i.install g diffs p).1.store = s.installation.store := by
  unfold Installation.install
  rw [hs]
  refine foldl_keeps (P := fun acc : Engine × PropagationStats => acc.1.store = s.installation.store)
    (fun acc c hc hacc => ?_) rfl
  obtain ⟨hvalue, hwrite⟩ := ContactStore.of_still (hacc ▸ hstill c hc)
  unfold flush
  split
  · next hp =>
    have hstore := Engine.store_of_propagate hp (by rw [hwrite]; exact .inl hvalue)
    exact (hstore.trans hwrite).trans hacc
  · exact hacc

namespace LiveBoard

variable {w : Workshop} {b : LiveBoard}

theorem settle_of_no_rounds (h : b.maxRounds = 0) (propagation : PropagationStats) : (b.settle propagation).1 = b := by
  rw [LiveBoard.settle, Bench.settle, h]
  rfl

theorem store_install {diffs : List GraphDiff} {p : Preparation} (hr : b.maxRounds = 0) {s : Installation.Progress}
    (hs : diffs.foldl (Installation.stepOrSkip b.graph p) { installation := b.installation } = s)
    (hstill : ∀ c ∈ s.sources.keys, s.installation.store.still c = true) :
    (b.install diffs p).1.store = s.installation.store ∧ (b.install diffs p).1.maxRounds = 0 := by
  have hinstall : (b.install diffs p).1 = { b with installation := (b.installation.install b.graph diffs p).1 } :=
    settle_of_no_rounds (b := { b with installation := (b.installation.install b.graph diffs p).1 }) hr _
  rw [hinstall]
  exact ⟨Installation.store_install hs hstill, hr⟩

theorem store_applyPlan {plan : Plan} (hr : b.maxRounds = 0)
    (hd : (b.binder.applyPlan (w.checkInstallation b.installation) plan).2.diffs = []) :
    (b.applyPlan w plan).1.store = b.store ∧ (b.applyPlan w plan).1.maxRounds = 0 ∧
      (b.applyPlan w plan).1.binder = (b.binder.applyPlan (w.checkInstallation b.installation) plan).1 := by
  have hinstall (binder : Binder) (p : Preparation) :
      (install { b with binder } [] p).1.store = b.store ∧ (install { b with binder } [] p).1.maxRounds = 0 :=
    store_install (b := { b with binder }) hr rfl (by intro c hc; cases hc)
  unfold LiveBoard.applyPlan
  simp only [hd]
  split
  · exact ⟨(hinstall _ _).1, (hinstall _ _).2, rfl⟩
  · exact ⟨rfl, hr, rfl⟩

theorem store_update {c : ContactId} {v : Json} (hr : b.maxRounds = 0) {s : ContactStore} {changed : Bool}
    (hu : b.store.update c v = .ok (s, changed)) (hd : s.downstream c = []) :
    ∃ b' report, b.update c v = .ok (b', report) ∧ b'.store = s ∧ b'.binder = b.binder := by
  obtain ⟨⟨engine, stats⟩, hp⟩ := Engine.exists_propagate (e := b.installation.bench.engine) hu
  have hwrite : b.installation.bench.engine.store.write (c, v) = s := ContactStore.write_of_update hu
  have hstore : engine.store = s := (Engine.store_of_propagate hp (by rw [hwrite]; exact .inr hd)).trans hwrite
  set b' := b.withBench { b.installation.bench with engine } with hb'
  have hsettle : (b'.settle stats).1 = b' := settle_of_no_rounds (b := b') hr stats
  refine ⟨b', (b'.settle stats).2, ?_, hstore, rfl⟩
  rw [update, hp]
  exact congrArg Except.ok (Prod.ext hsettle rfl)

end LiveBoard

namespace Host

/-- Where no gadgets are run and there is nothing to install for a plan, what is written next to a contact that feeds none
is all that is different. -/
theorem get?_boards_update {h : Host} {id : BoardId} {b : LiveBoard} {plan : Plan} {c : ContactId} {v : Json}
    {s : ContactStore} {changed : Bool} (hb : h.boards.get? id = some b) (hid : b.id = id) (hr : b.maxRounds = 0)
    (hdiffs : (b.binder.applyPlan (h.workshop.checkInstallation b.installation) plan).2.diffs = [])
    (hu : b.store.update c v = .ok (s, changed)) (hd : s.downstream c = []) :
    ∃ b', (h.after [.call (.applyPlan id plan), .call (.update id c v)]).boards.get? id = some b' ∧ b'.id = id ∧
      b'.store = s ∧ b'.binder = (b.binder.applyPlan (h.workshop.checkInstallation b.installation) plan).1 := by
  obtain ⟨hstore, hr, hbinder⟩ := LiveBoard.store_applyPlan hr hdiffs
  set b₁ := (b.applyPlan h.workshop plan).1
  have hid₁ : b₁.id = id := (LiveBoard.Turns.applyPlan plan).id_eq.trans hid
  have hb₁ : (h.applyPlan id plan).1.boards.get? id = some b₁.takeNotes.1 := get?_onBoard hb hid₁
  rw [← hstore] at hu
  obtain ⟨b₂, report, hupdate, hstore₂, hbinder₂⟩ := LiveBoard.store_update (b := b₁.takeNotes.1) hr hu hd
  have hid₂ : b₂.id = id := (LiveBoard.Turns.update (w := h.workshop) hupdate).id_eq.trans hid₁
  have hanswer : orUnchanged b₁.takeNotes.1 (b₁.takeNotes.1.update c v) = (b₂, .ok report) := by
    simp only [orUnchanged, hupdate]
  have hb₂ := get?_onBoard (f := fun b => orUnchanged b (b.update c v)) hb₁
    (show (orUnchanged _ _).1.id = id by rw [hanswer]; exact hid₂)
  rw [hanswer] at hb₂
  exact ⟨b₂.takeNotes.1, hb₂, hid₂, hstore₂, hbinder₂.trans hbinder⟩

end Host

end Patchbay
