import Patchbay.Proofs.Contact.Fed
import Patchbay.Proofs.Gadget.Deliver
import Patchbay.Proofs.Propagation.History

/-! Propagation calls where values go one way, from contacts that are fed by none to contacts that feed none. A call goes no
further than one connection, and leaves everyone whom its source feeds with nothing left to take from it. -/

namespace Patchbay

namespace Propagation

open ContactStore

/-- A call under way that began in the store `s`: whoever is fed by the source and may have something left to take from
it has a task waiting. -/
structure Passing (s : ContactStore) (source : ContactId) (w : Walk) : Prop where
  sound : w.store.Sound
  advances : s.Advances w.store
  source_eq : w.store.contacts.get? source = s.contacts.get? source
  kept : ∀ a b, a ≠ source → s.Feeds a b → s.Fed a b → w.store.Fed a b
  tasks : ∀ t ∈ w.queue, t.depth = 1 ∧ s.Feeds source t.target ∧
    ∀ c, s.contacts.get? source = some c → t.value = c.value
  passed : ∀ b, s.Feeds source b → w.store.Fed source b ∨ ∃ t ∈ w.queue, t.target = b
  marked : ∀ id, w.Marks id → w.store.Fed source id

variable {s : ContactStore} {source : ContactId}

/-- Where the target feeds none, carrying a task out leaves no other. -/
theorem queue_carryOut (hw : s.Wired) (ho : s.OneWay) {w : Walk} {t : Task} {a : ContactId} (hadv : s.Advances w.store)
    (hfeeds : s.Feeds a t.target) : (carryOut w t).queue = w.queue := by
  rcases carryOut_cases w t with ⟨_, -, -, hq, -⟩ | ⟨_, -, -, hq, -⟩ | ⟨s', v, hu, -, -, hq, -⟩
  · exact hq
  · exact hq
  · have hadv' := hadv.trans (.of_update hu)
    have hnone : s'.downstream t.target = [] := by
      refine List.eq_nil_iff_forall_not_mem.2 fun b hb => ?_
      exact ho a t.target b hfeeds (hadv'.feeds_iff.1 ((mem_downstream (hadv'.wired hw)).1 hb))
    rw [hq, tasksFrom, hnone]
    exact List.append_nil _

/-- A task whose target is fed already may go. -/
theorem Passing.drop {w w' : Walk} {t : Task} {rest : List Task} (h : Passing s source w) (hq : w.queue = t :: rest)
    (hfed : w.store.Fed source t.target) (hstore : w'.store = w.store) (hqueue : w'.queue = rest)
    (hmarks : ∀ id, w'.Marks id → w.Marks id ∨ id = t.target) : Passing s source w' where
  sound := hstore ▸ h.sound
  advances := hstore ▸ h.advances
  source_eq := hstore ▸ h.source_eq
  kept := hstore ▸ h.kept
  tasks x hx := h.tasks x (hq ▸ List.mem_cons_of_mem t (hqueue ▸ hx))
  passed b hb := by
    rw [hstore, hqueue]
    rcases h.passed b hb with hf | ⟨x, hx, rfl⟩
    · exact .inl hf
    · rw [hq] at hx
      rcases List.mem_cons.1 hx with rfl | hx
      · exact .inl hfed
      · exact .inr ⟨x, hx, rfl⟩
  marked id hid := by
    rw [hstore]
    rcases hmarks id hid with hid | rfl
    · exact h.marked id hid
    · exact hfed

/-- A write to its target carries a task out, whether it makes a difference or not. -/
theorem Passing.write (ho : s.OneWay) {w w' : Walk} {t : Task} {rest : List Task} (h : Passing s source w)
    (hq : w.queue = t :: rest) (hstore : w'.store = w.store.write (t.target, t.value)) (hadv : w.store.Advances w'.store)
    (hqueue : w'.queue = rest) (hmarks : ∀ id, w'.Marks id → w.Marks id ∨ id = t.target) : Passing s source w' := by
  obtain ⟨-, hfeeds, hvalue⟩ := h.tasks t (hq ▸ List.mem_cons_self)
  have hne : source ≠ t.target := ho.ne hfeeds hfeeds
  have hsource : w'.store.contacts.get? source = s.contacts.get? source := by
    rw [hstore, get?_write_of_ne _ hne, h.source_eq]
  have hkept {a b : ContactId} (ha : a ≠ t.target) (hf : w.store.Fed a b) : w'.store.Fed a b :=
    hstore ▸ hf.write h.sound ha
  have hfed : w'.store.Fed source t.target := by
    intro c hc
    rw [← hvalue c (hsource ▸ hc), hstore]
    exact absorbs_write h.sound _ _
  refine ⟨hstore ▸ h.sound.write _, h.advances.trans hadv, hsource, fun a b ha hab hf => ?_, fun x hx => ?_,
    fun b hb => ?_, fun id hid => ?_⟩
  · exact hkept (ho.ne hab hfeeds) (h.kept a b ha hab hf)
  · exact h.tasks x (hq ▸ List.mem_cons_of_mem t (hqueue ▸ hx))
  · rw [hqueue]
    rcases h.passed b hb with hf | ⟨x, hx, rfl⟩
    · exact .inl (hkept hne hf)
    · rw [hq] at hx
      rcases List.mem_cons.1 hx with rfl | hx
      · exact .inl hfed
      · exact .inr ⟨x, hx, rfl⟩
  · rcases hmarks id hid with hid | rfl
    · exact hkept hne (h.marked id hid)
    · exact hfed

theorem Passing.takeUp {threshold : Nat} {w : Walk} {t : Task} {rest : List Task} (ht : 1 ≤ threshold) (hw : s.Wired)
    (ho : s.OneWay) (h : Passing s source w) (hq : w.queue = t :: rest) :
    Passing s source (takeUp threshold { w with queue := rest } t) := by
  obtain ⟨-, hfeeds, -⟩ := h.tasks t (hq ▸ List.mem_cons_self)
  have hmarks (id) (hid : (Propagation.takeUp threshold { w with queue := rest } t).Marks id) :
      ({ w with queue := rest } : Walk).Marks id ∨ id = t.target := marks_takeUp hid
  rcases takeUp_cases ht { w with queue := rest } t with ⟨hm, hstore, hqueue, -⟩ | he
  · exact h.drop hq (h.marked _ hm) hstore hqueue hmarks
  · rw [he] at hmarks ⊢
    set v : Walk := { w with queue := rest, visits := w.visits.insert t.target (w.visits.getD t.target 0 + 1) }
    have hadv : w.store.Advances (carryOut v t).store := advances_carryOut v t
    have hqueue : (carryOut v t).queue = rest := queue_carryOut hw ho h.advances hfeeds
    exact h.write ho hq (carryOut_writes v t).1 hadv hqueue hmarks

/-- No task is too deep, and none is given up. -/
theorem Passing.walk {limits : PropagationLimits} (hd : 1 ≤ limits.maxDepth) (ht : 1 ≤ limits.cycleThreshold)
    (hw : s.Wired) (ho : s.OneWay) {w : Walk} (h : Passing s source w) : Passing s source (walk limits w) := by
  induction w using walk.induct limits with
  | case1 w hq => rwa [walk_of_nil hq]
  | case2 w t rest hq hdeep =>
    have hone := (h.tasks t (hq ▸ List.mem_cons_self)).1
    omega
  | case3 w t rest hq hdeep ih =>
    rw [walk_of_cons hq, if_neg hdeep]
    exact ih (h.takeUp ht hw ho hq)

theorem passing_start (hw : s.Wired) (hs : s.Sound) {current : Json} (hv : s.value source = .ok current)
    (changed : Bool) : Passing s source (start s source current changed) := by
  obtain ⟨c, hc, rfl⟩ := value_eq_ok.1 hv
  refine ⟨hs, .refl s, rfl, fun a b _ _ hf => hf, fun t ht => ?_, fun b hb => ?_, ?_⟩
  · simp only [start] at ht
    split at ht
    · cases ht
    · obtain ⟨b, hb, rfl⟩ := List.mem_map.1 ht
      refine ⟨rfl, (mem_downstream hw).1 hb, fun d hd => ?_⟩
      rw [hc] at hd
      cases hd
      rfl
  · simp only [start]
    split
    · -- no task is needed for null, which makes no difference anywhere
      next hn =>
      refine .inl fun d hd => ?_
      rw [hc] at hd
      cases hd
      rw [Json.isNull_iff.1 hn]
      exact hs.absorbs_null b
    · exact .inr ⟨_, List.mem_map.2 ⟨b, (mem_downstream hw).2 hb, rfl⟩, rfl⟩
  · rintro id (hn | hn)
    · exact absurd rfl hn
    · cases hn

end Propagation

namespace Engine

open ContactStore

/-- An engine at work where values go one way, with nothing left to carry but what is due. -/
structure Flows (e : Engine) (due : Set ContactId) : Prop where
  fedBut : e.store.FedBut due
  oneWay : e.store.OneWay
  maxDepth : 1 ≤ e.limits.maxDepth
  cycleThreshold : 1 ≤ e.limits.cycleThreshold

variable {e e' : Engine} {due : Set ContactId} {source : ContactId}

/-- A call settles what is due at its source, and nothing becomes due. -/
theorem Flows.propagate (h : e.Flows due) {v : Json} {stats : PropagationStats}
    (hp : e.propagate source v = .ok (e', stats)) : e'.Flows (due \ {source}) := by
  have hadv := advances_propagate hp
  have hlimits := limits_propagate hp
  obtain ⟨s, changed, current, hu, hcurrent, rfl, -⟩ := propagate_cases hp
  have hw : s.Wired := (Advances.of_update hu).wired h.fedBut.wired
  have ho : s.OneWay := (Advances.of_update hu).oneWay_iff.2 h.oneWay
  have hs : e.store.write (source, v) = s := write_of_update hu
  have hsound : s.Sound := hs ▸ h.fedBut.sound.write (source, v)
  have hpassing := (Propagation.passing_start hw hsound hcurrent changed).walk h.maxDepth h.cycleThreshold hw ho
  refine ⟨⟨hadv.wired h.fedBut.wired, hpassing.sound, fun a b hab => ?_⟩, hadv.oneWay_iff.2 h.oneWay, hlimits ▸ h.maxDepth,
    hlimits ▸ h.cycleThreshold⟩
  have hab : e.store.Feeds a b := hadv.feeds_iff.1 hab
  have hab' : s.Feeds a b := (Advances.of_update hu).feeds_iff.2 hab
  by_cases ha : a = source
  · subst ha
    rcases hpassing.passed b hab' with hf | ⟨t, ht, -⟩
    · exact .inl hf
    · rw [Propagation.queue_walk] at ht
      cases ht
  · refine (h.fedBut.fed a b hab).imp (fun hf => ?_) fun hd => ⟨hd, ha⟩
    exact hpassing.kept a b ha hab' (hs ▸ hf.write h.fedBut.sound ha)

theorem Flows.propagate_empty (h : e.Flows ∅) {v : Json} {stats : PropagationStats}
    (hp : e.propagate source v = .ok (e', stats)) : e'.Flows ∅ :=
  Set.empty_sdiff {source} ▸ h.propagate hp

/-- Null can be written to any contact that is there, and passes on what the contact holds. -/
theorem Flows.propagate_null (h : e.Flows due) (hin : e.store.contains source = true) :
    ∃ p, e.propagate source .null = .ok p := by
  obtain ⟨p, hu⟩ := h.fedBut.sound.update_null hin
  exact exists_propagate hu

/-- News and listeners do not matter to what flows. -/
theorem Flows.of_same (h : e.Flows due) (hw : e'.store.Wired) (hcontacts : e'.store.contacts = e.store.contacts)
    (hconnections : e'.store.connections = e.store.connections) (hl : e'.limits = e.limits) : e'.Flows due where
  fedBut := h.fedBut.thin hw (fun _ _ hc => hcontacts ▸ hc) fun _ _ hx => hconnections ▸ hx
  oneWay := by
    have ho := h.oneWay
    simp only [OneWay, Feeds, hconnections] at ho ⊢
    exact ho
  maxDepth := hl ▸ h.maxDepth
  cycleThreshold := hl ▸ h.cycleThreshold

theorem steady_flows : Steady fun e => e.Flows ∅ where
  propagate h hp := h.propagate_empty hp
  takeMail _ h :=
    have hw := h.fedBut.wired
    h.of_same ⟨hw.contact_id, hw.connection_id, hw.ends, hw.numbered, hw.listed⟩ rfl rfl rfl

end Engine

end Patchbay
