import Patchbay.Proofs.Gadget.Turn

/-! Triggers. A gadget in place, one of whose input contacts changed, has news of it, has its turn ahead, waits with its
present inputs, or was last executed with its present inputs. No turn and no answer of any gadget breaks this. -/

namespace Patchbay.Bench

/-! ## What an execution leaves -/

/-- A gadget has been executed with some inputs. -/
structure Acts (b : Bench) (id : GadgetId) (inputs : PinValues) (b' : Bench) : Prop where
  setup : b.SameSetup b'
  advances : b.engine.store.Advances b'.engine.store
  others : ∀ k, k ≠ id → b'.executor.gadgets.get? k = b.executor.gadgets.get? k
  recorded : ∃ r x, b'.executor.gadgets.get? id = some r ∧ r.stats.last = some x ∧ x.gadget = id ∧ x.inputs = inputs

theorem last_record (s : GadgetStats) (x : Execution) : (s.record x).last = some x := by
  unfold GadgetStats.record
  split <;> rfl

variable {b b' : Bench} {id : GadgetId} {r : Registration}

theorem acts_skip (b : Bench) (inputs : PinValues) (hr : b.executor.gadgets.get? id = some r) :
    b.Acts id inputs (b.skip id r inputs).1 where
  setup := b.sameSetup_skip inputs hr
  advances := .refl _
  others _ hk := Dict.get?_insert_of_ne _ hk _
  recorded := ⟨_, _, Dict.get?_insert_self .., last_record .., rfl, rfl⟩

theorem acts_fire (b : Bench) (inputs : PinValues) (hr : b.executor.gadgets.get? id = some r) :
    b.Acts id inputs (b.fire id r inputs).1 where
  setup := b.sameSetup_fire inputs hr
  advances := b.advances_fire id r inputs
  others k hk := by
    obtain ⟨_, r', -, hx, -⟩ := b.fire_cases id r inputs
    rw [hx, Dict.get?_insert_of_ne _ hk]
  recorded := by
    cases hp : (r.gadget.process r.calls ⟨b.now, inputs, ⟨id, r.mount.params⟩⟩).result with
    | error cause =>
      simp only [fire, hp]
      exact ⟨_, _, Dict.get?_insert_self .., last_record .., rfl, rfl⟩
    | ok outputs =>
      simp only [fire, hp]
      exact ⟨_, _, Dict.get?_insert_self .., last_record .., rfl, rfl⟩

theorem acts_execute {force : Bool} {x : Execution} (h : b.execute id force = .ok (b', x)) :
    ∃ r inputs, b.executor.gadgets.get? id = some r ∧ b.readInputs r = .ok inputs ∧ b.Acts id inputs b' := by
  obtain ⟨⟨r, inputs⟩, hs, h⟩ := ok_of_bind h
  obtain ⟨hr, hi⟩ := snapshot_eq_ok.1 hs
  refine ⟨r, inputs, hr, hi, ?_⟩
  have hb : _ = b' := congrArg Prod.fst (Except.ok.inj h)
  split at hb
  · rw [← hb]
    exact b.acts_skip inputs hr
  · rw [← hb]
    exact b.acts_fire inputs hr

/-! ## One gadget -/

/-- The executor has heard that a contact changed which the gadget is mounted on. -/
def Stirred (b : Bench) (r : Registration) : Prop :=
  ∃ c ∈ r.mount.inputs.values, (b.executor.dirty b.engine.store).contains c = true

/-- The gadget was last executed with its present inputs. -/
def Answered (b : Bench) (id : GadgetId) (r : Registration) : Prop :=
  ∃ r' x, b.executor.gadgets.get? id = some r' ∧ r'.stats.last = some x ∧ x.gadget = id ∧
    b.readInputs r = .ok x.inputs

theorem stirred_or_same (hl : b'.executor.listener = b.executor.listener)
    (h : b.engine.store.Reports b'.engine.store b.executor.listener r.mount.inputs.values) :
    b'.Stirred r ∨
      ∀ c ∈ r.mount.inputs.values, b'.engine.store.contacts.get? c = b.engine.store.contacts.get? c := by
  refine or_iff_not_imp_left.2 fun hno c hc => (h.told c hc).resolve_right ?_
  rintro ⟨m, hm, hrec, he⟩
  exact hno ⟨c, hc, Executor.contains_dirty.2 ⟨m, hm, hl ▸ hrec, he⟩⟩

theorem Stirred.advance (hs : b.Stirred r) (hl : b'.executor.listener = b.executor.listener)
    (h : b.engine.store.Reports b'.engine.store b.executor.listener r.mount.inputs.values) : b'.Stirred r := by
  obtain ⟨c, hc, hd⟩ := hs
  obtain ⟨m, hm, hrec, he⟩ := Executor.contains_dirty.1 hd
  exact ⟨c, hc, Executor.contains_dirty.2 ⟨m, h.kept m hm hrec, hl ▸ hrec, he⟩⟩

/-- What a gadget reads is up to the contacts that it is mounted on. -/
theorem readInputs_of_same
    (h : ∀ c ∈ r.mount.inputs.values, b'.engine.store.contacts.get? c = b.engine.store.contacts.get? c) :
    b'.readInputs r = b.readInputs r := by
  refine readInputs_congr rfl fun pin _ => ?_
  unfold pinValue
  split
  · next c hc =>
    have hsame := h c (Dict.mem_values.2 ⟨pin, hc⟩)
    rw [ContactStore.value, ContactStore.value, ContactStore.contact, ContactStore.contact, hsame]
  · rfl

theorem readInputs_of_present (h : ∀ c ∈ r.mount.inputs.values, b.engine.store.contains c = true) :
    ∃ x, b.readInputs r = .ok x := by
  refine readInputs_isOk fun pin _ => ?_
  unfold pinValue
  split
  · next c hc =>
    obtain ⟨d, hd⟩ := Dict.contains_iff.1 (h c (Dict.mem_values.2 ⟨pin, hc⟩))
    exact ⟨d.value, ContactStore.value_eq_ok.2 ⟨d, hd, rfl⟩⟩
  · exact ⟨.null, rfl⟩

/-- The gadget has news, or whoever waits in its name does so with its present inputs, and it has its turn ahead, waits,
was answered with its present inputs, or reads nothing that has changed since the bench was `b₀`. -/
def Awaited (b₀ : Bench) (id : GadgetId) (r : Registration) (b : Bench) (due : List GadgetId)
    (waiting : List Waiting) : Prop :=
  b.Stirred r ∨
    (∀ w ∈ waiting, w.gadget = id → b.readInputs r = .ok w.inputs) ∧
      (id ∈ due ∨ (∃ w ∈ waiting, w.gadget = id) ∨ b.Answered id r ∨
        ∀ c ∈ r.mount.inputs.values, b.engine.store.contacts.get? c = b₀.engine.store.contacts.get? c)

/-- A gadget in place since the bench was `b₀`, on contacts that are there, of an executor that listens. -/
structure Watched (b₀ : Bench) (id : GadgetId) (r : Registration) (n : Subscription) (b : Bench)
    (due : List GadgetId) (waiting : List Waiting) : Prop where
  indexed : b.executor.Indexed
  hears : (n, b.executor.listener) ∈ b.engine.store.listeners
  placed : ∃ r', b.executor.gadgets.get? id = some r' ∧ r'.gadget = r.gadget ∧ r'.mount = r.mount
  present : ∀ c ∈ r.mount.inputs.values, b.engine.store.contains c = true
  awaited : Awaited b₀ id r b due waiting

namespace Watched

variable {b₀ : Bench} {n : Subscription} {due due' : List GadgetId} {waiting waiting' : List Waiting}

/-- Turns and waits of other gadgets come and go. -/
theorem rearrange (h : Watched b₀ id r n b due waiting)
    (hw : ∀ w ∈ waiting', w.gadget = id → w ∈ waiting ∨ b.readInputs r = .ok w.inputs)
    (hdue : id ∈ due → id ∈ due' ∨ ∃ w ∈ waiting', w.gadget = id)
    (hwait : (∃ w ∈ waiting, w.gadget = id) → ∃ w ∈ waiting', w.gadget = id) :
    Watched b₀ id r n b due' waiting' where
  indexed := h.indexed
  hears := h.hears
  placed := h.placed
  present := h.present
  awaited := by
    refine h.awaited.imp_right fun ⟨hcur, hcases⟩ => ⟨fun w hm he => ?_, ?_⟩
    · exact (hw w hm he).elim (fun hm => hcur w hm he) fun hi => hi
    · rcases hcases with hid | hex | hans | hsame
      · exact (hdue hid).imp_right .inl
      · exact .inr (.inl (hwait hex))
      · exact .inr (.inr (.inl hans))
      · exact .inr (.inr (.inr hsame))

/-- Whatever leaves the gadget alone and reports what becomes of its contacts leaves it watched. -/
theorem advance (h : Watched b₀ id r n b due waiting) (hi : b'.executor.Indexed)
    (hl : b'.executor.listener = b.executor.listener)
    (hn : (n, b'.executor.listener) ∈ b'.engine.store.listeners)
    (hg : b'.executor.gadgets.get? id = b.executor.gadgets.get? id)
    (hp : ∀ c ∈ r.mount.inputs.values, b'.engine.store.contains c = true)
    (hr : b.engine.store.Reports b'.engine.store b.executor.listener r.mount.inputs.values) :
    Watched b₀ id r n b' due waiting where
  indexed := hi
  hears := hn
  placed := hg ▸ h.placed
  present := hp
  awaited := by
    rcases h.awaited with hs | ⟨hcur, hcases⟩
    · exact .inl (hs.advance hl hr)
    rcases stirred_or_same hl hr with hs | hsame
    · exact .inl hs
    -- nothing that the gadget reads has changed
    have hread := readInputs_of_same hsame
    refine .inr ⟨fun w hm he => hread.trans (hcur w hm he), hcases.imp_right (.imp_right (.imp ?_ ?_))⟩
    · rintro ⟨r', x, hr', hx, hid, hin⟩
      exact ⟨r', x, hg.trans hr', hx, hid, hread.trans hin⟩
    · exact fun hu c hc => (hsame c hc).trans (hu c hc)

theorem acts_setup (h : Watched b₀ id r n b due waiting) {k : GadgetId} {inputs : PinValues}
    (ha : b.Acts k inputs b') :
    (n, b'.executor.listener) ∈ b'.engine.store.listeners ∧
      (∀ c ∈ r.mount.inputs.values, b'.engine.store.contains c = true) ∧
      b.engine.store.Reports b'.engine.store b.executor.listener r.mount.inputs.values := by
  refine ⟨?_, fun c hc => ?_, ha.advances.reports h.hears _⟩
  · rw [ha.setup.listener_eq, ha.advances.listeners_eq]
    exact h.hears
  · rw [ha.advances.contains_eq]
    exact h.present c hc

/-- An execution leaves a gadget watched, its own if it was with its present inputs, unless there is news. -/
theorem act (h : Watched b₀ id r n b due waiting) {k : GadgetId} {inputs : PinValues} (ha : b.Acts k inputs b')
    (hin : k = id → ¬b.Stirred r → b.readInputs r = .ok inputs)
    (hdue : ∀ k', k' ∈ due → k' = k ∨ k' ∈ due') (hwait : ∀ w ∈ waiting', w ∈ waiting)
    (hout : ∀ w ∈ waiting, w.gadget = k ∨ w ∈ waiting') : Watched b₀ id r n b' due' waiting' := by
  obtain ⟨hhears, hpresent, hreports⟩ := h.acts_setup ha
  have hindexed := ha.setup.indexed h.indexed
  have hlistener := ha.setup.listener_eq
  by_cases hk : k = id
  · subst hk
    refine ⟨hindexed, hhears, ?_, hpresent, ?_⟩
    · obtain ⟨r', hr', hg, hm⟩ := h.placed
      obtain ⟨r'', hr'', hg', hm'⟩ := ha.setup.get? hr'
      exact ⟨r'', hr'', hg'.trans hg, hm'.trans hm⟩
    · rcases h.awaited with hs | ⟨hcur, -⟩
      · exact .inl (hs.advance hlistener hreports)
      rcases stirred_or_same hlistener hreports with hs | hsame
      · exact .inl hs
      by_cases hs : b.Stirred r
      · exact .inl (hs.advance hlistener hreports)
      have hread := readInputs_of_same hsame
      obtain ⟨r', x, hr', hx, hid, hxi⟩ := ha.recorded
      refine .inr ⟨fun w hm he => hread.trans (hcur w (hwait w hm) he), .inr (.inr (.inl ⟨r', x, hr', hx, hid, ?_⟩))⟩
      rw [hread, hxi]
      exact hin rfl hs
  · have hothers := ha.others id (Ne.symm hk)
    refine (h.advance hindexed hlistener hhears hothers hpresent hreports).rearrange
      (fun w hm _ => .inl (hwait w hm)) (fun hid => .inl ((hdue id hid).resolve_left (Ne.symm hk))) ?_
    rintro ⟨w, hm, he⟩
    exact ⟨w, (hout w hm).resolve_left fun hwk => hk (hwk.symm.trans he), he⟩

/-- What the gadget in place reads now. -/
theorem readInputs_placed (h : Watched b₀ id r n b due waiting) {r' : Registration} {inputs : PinValues}
    (hr' : b.executor.gadgets.get? id = some r') (hi : b.readInputs r' = .ok inputs) :
    b.readInputs r = .ok inputs := by
  obtain ⟨r'', hr'', hg, hm⟩ := h.placed
  rw [hr'] at hr''
  cases hr''
  rw [← b.readInputs_eq hg hm]
  exact hi

/-! ## Rounds -/

theorem turn {round : Round} {k : GadgetId}
    (h : Watched b₀ id r n round.bench (k :: due) round.waiting) :
    Watched b₀ id r n (round.turn k).bench due (round.turn k).waiting := by
  have hdue : ∀ k', k' ∈ k :: due → k' = k ∨ k' ∈ due := fun k' hk' => List.mem_cons.1 hk'
  rcases round.turn_cases k with ⟨⟨e, he⟩, hsame⟩ | ⟨r', inputs, hr', hi, hcases⟩
  · -- the gadget is in place, and its contacts are there
    rw [hsame]
    refine h.rearrange (fun w hm _ => .inl hm) (fun hid => .inl ((hdue id hid).resolve_left ?_)) fun hex => hex
    rintro rfl
    obtain ⟨r', hr', hg, hm⟩ := h.placed
    obtain ⟨x, hx⟩ := readInputs_of_present h.present
    rw [snapshot_eq_ok.2 ⟨hr', (round.bench.readInputs_eq hg hm).trans hx⟩] at he
    cases he
  have hin : k = id → ¬round.bench.Stirred r → round.bench.readInputs r = .ok inputs := by
    rintro rfl -
    exact h.readInputs_placed hr' hi
  rcases hcases with ⟨-, hw, hb⟩ | ⟨-, hw, hb⟩ | ⟨-, hb, hw⟩
  · rw [hw, hb]
    exact h.act (round.bench.acts_skip inputs hr') hin hdue (fun w hm => hm) fun w hm => .inr hm
  · rw [hw, hb]
    exact h.act (round.bench.acts_fire inputs hr') hin hdue (fun w hm => hm) fun w hm => .inr hm
  · rw [hw, hb]
    refine h.rearrange (fun w hm he => ?_) (fun hid => ?_) ?_
    · rcases List.mem_append.1 hm with hm | hm
      · exact .inl hm
      · rw [List.mem_singleton.1 hm] at he ⊢
        subst he
        exact .inr (h.readInputs_placed hr' hi)
    · refine (hdue id hid).symm.imp_right fun he => ?_
      exact ⟨_, List.mem_append_right _ List.mem_cons_self, he.symm⟩
    · rintro ⟨w, hm, he⟩
      exact ⟨w, List.mem_append_left _ hm, he⟩

theorem wake {round : Round} {w : Waiting} (h : Watched b₀ id r n round.bench due (w :: waiting)) :
    Watched b₀ id r n (round.wake w).bench due waiting := by
  have hout : ∀ w' ∈ w :: waiting, w'.gadget = w.gadget ∨ w' ∈ waiting := by
    intro w' hm
    rcases List.mem_cons.1 hm with rfl | hm
    · exact .inl rfl
    · exact .inr hm
  rcases round.wake_cases w with ⟨hnone, hb⟩ | ⟨r', hr', hb⟩
  · rw [hb]
    refine h.rearrange (fun w' hm _ => .inl (List.mem_cons_of_mem w hm)) .inl ?_
    rintro ⟨w', hm, he⟩
    refine ⟨w', (hout w' hm).resolve_left fun hw => ?_, he⟩
    obtain ⟨r', hr', -⟩ := h.placed
    rw [← he, hw, hnone] at hr'
    cases hr'
  · rw [hb]
    refine h.act (round.bench.acts_fire w.inputs hr') (fun hid hs => ?_) (fun _ hm => .inr hm)
      (fun w' hm => List.mem_cons_of_mem w hm) hout
    exact (h.awaited.resolve_left hs).1 w List.mem_cons_self hid

/-- What has been heard is taken, and a gadget that it concerns has its turn ahead instead. -/
theorem triggered (h : Watched b₀ id r n b [] []) : Watched b₀ id r n b.triggered.1 b.triggered.2 [] where
  indexed := h.indexed
  hears := h.hears
  placed := h.placed
  present := h.present
  awaited := by
    refine .inr ⟨nofun, ?_⟩
    rcases h.awaited with ⟨c, hc, hd⟩ | ⟨-, hid | ⟨w, hm, -⟩ | hans | hsame⟩
    · obtain ⟨r', hr', -, hm⟩ := h.placed
      refine .inl (Executor.mem_readersOf.2 ⟨c, hd, (h.indexed.mem_iff c id).2 ⟨r', hr', ?_⟩⟩)
      rw [hm]
      exact hc
    · cases hid
    · cases hm
    · exact .inr (.inr (.inl hans))
    · exact .inr (.inr (.inr hsame))

theorem turns (ids : List GadgetId) {round : Round} (h : Watched b₀ id r n round.bench ids round.waiting) :
    Watched b₀ id r n (ids.foldl Round.turn round).bench [] (ids.foldl Round.turn round).waiting := by
  induction ids generalizing round with
  | nil => exact h
  | cons k rest ih => exact ih h.turn

theorem wakes (ws : List Waiting) {round : Round} (h : Watched b₀ id r n round.bench [] ws) :
    Watched b₀ id r n (ws.foldl Round.wake round).bench [] [] := by
  induction ws generalizing round with
  | nil => exact h
  | cons w rest ih => exact ih h.wake

theorem settleWith {order : Nat → List Waiting → List Waiting}
    (ho : ∀ left waiting, (order left waiting).Perm waiting) (rounds : Nat) (h : Watched b₀ id r n b [] []) :
    Watched b₀ id r n (settleWith order rounds b).1 [] [] := by
  induction rounds generalizing b with
  | zero => exact h
  | succ rounds ih =>
    have htriggered := h.triggered
    simp only [Bench.settleWith]
    split
    · next hempty =>
      rw [List.isEmpty_iff.1 hempty] at htriggered
      exact htriggered
    · have hround : Watched b₀ id r n ({ bench := b.triggered.1 } : Round).bench b.triggered.2
          ({ bench := b.triggered.1 } : Round).waiting := htriggered
      have hturns := hround.turns b.triggered.2
      -- in whatever order the answers come, the same gadgets wait
      have hperm := ho rounds (b.triggered.2.foldl Round.turn { bench := b.triggered.1 }).waiting
      have harranged := hturns.rearrange (fun w hm _ => .inl (hperm.mem_iff.1 hm)) .inl
        fun hw => hw.imp fun w hw => ⟨hperm.mem_iff.2 hw.1, hw.2⟩
      exact ih (harranged.wakes _)

end Watched

end Patchbay.Bench
