import Patchbay.Proofs.Contact.Level
import Patchbay.Proofs.Propagation.Walk
import Mathlib.Logic.Relation

/-! Propagation calls on a lawful lattice, under way. A walk may drop a task, stop at a contact or spare the edge
back, for the contact that goes without the task is above the source's level already. -/

namespace Patchbay

namespace ContactStore

/-- Values written to `a` may get to `b`. -/
def Reaches (s : ContactStore) : ContactId → ContactId → Prop := Relation.ReflTransGen s.Feeds

theorem SameNetwork.reaches_iff {s s' : ContactStore} (h : s.SameNetwork s') {a b : ContactId} :
    s'.Reaches a b ↔ s.Reaches a b := by
  have hf : s'.Feeds = s.Feeds := funext₂ fun _ _ => propext h.feeds_iff
  rw [Reaches, Reaches, hf]

end ContactStore

namespace Lattice.Lawful

open Propagation

variable {l : Lattice} {carrier : Json → Prop} (h : l.Lawful carrier)

/-- The source's level has raised a contact, once and from a level that it was not below. -/
def Raised (s : ContactStore) (source : ContactId) (s' : ContactStore) (id : ContactId) : Prop :=
  s.Reaches source id ∧ ¬h.level s source ≤ h.level s id ∧
    h.level s' id = h.level s id ⊔ h.level s source ∧
    ∃ c c', s.contacts.get? id = some c ∧ s'.contacts.get? id = some c' ∧ c'.version = c.version + 1

/-- A task as calls that begin at the source make them. -/
structure Bears (s : ContactStore) (source : ContactId) (s' : ContactStore) (t : Task) : Prop where
  value : carrier t.value
  feeds : s.Feeds t.source t.target
  reached : s.Reaches source t.source
  least : h.level s source ≤ h.element t.value
  most : h.element t.value ≤ h.level s t.target ⊔ h.level s source
  sender : h.level s source ≤ h.level s' t.source

/-- A call under way that began in the store `s`: who is not yet above the source's level, though fed by one who
is, has a task waiting. -/
structure Underway (s : ContactStore) (source : ContactId) (w : Walk) : Prop where
  carries : w.store.Carries l carrier
  advances : s.Advances w.store
  contacts : ∀ id, w.store.contacts.get? id = s.contacts.get? id ∨ h.Raised s source w.store id
  tasks : ∀ t ∈ w.queue, h.Bears s source w.store t
  edges : ∀ a b, s.Feeds a b → s.Reaches source a → h.level s source ≤ h.level w.store a →
    h.level s source ≤ h.level w.store b ∨ ∃ t ∈ w.queue, t.target = b
  marked : ∀ id, w.Marks id → h.level s source ≤ h.level w.store id
  rejected : w.stats.rejected = 0

variable {h} {s : ContactStore} {source : ContactId}

theorem Underway.level_eq {w : Walk} (hu : h.Underway s source w) (id : ContactId) :
    h.level w.store id = h.level s id ∨ h.level w.store id = h.level s id ⊔ h.level s source :=
  (hu.contacts id).imp (h.level_congr ·) (·.2.2.1)

/-- A task whose target is above the source's level may go. -/
theorem Underway.drop {w w' : Walk} {t : Task} {rest : List Task} (hu : h.Underway s source w)
    (hq : w.queue = t :: rest) (hle : h.level s source ≤ h.level w.store t.target)
    (hstore : w'.store = w.store) (hqueue : w'.queue = rest)
    (hmarks : ∀ id, w'.Marks id → w.Marks id ∨ id = t.target)
    (hrejected : w'.stats.rejected = w.stats.rejected) : h.Underway s source w' where
  carries := hstore ▸ hu.carries
  advances := hstore ▸ hu.advances
  contacts := hstore ▸ hu.contacts
  tasks x hx := by
    rw [hstore]
    exact hu.tasks x (hq ▸ List.mem_cons_of_mem t (hqueue ▸ hx))
  edges a b hab ha hl := by
    rw [hstore] at hl ⊢
    rcases hu.edges a b hab ha hl with hb | ⟨x, hx, rfl⟩
    · exact .inl hb
    · rw [hq] at hx
      rcases List.mem_cons.1 hx with rfl | hx
      · exact .inl hle
      · exact .inr ⟨x, hqueue ▸ hx, rfl⟩
  marked id hid := by
    rw [hstore]
    rcases hmarks id hid with hid | rfl
    · exact hu.marked id hid
    · exact hle
  rejected := hrejected.trans hu.rejected

/-- A task that makes a difference raises its target, which is as it was at the start till then, to where the source's
level puts it. -/
theorem Underway.raised_target {w : Walk} {t : Task} {s' : ContactStore} (hu : h.Underway s source w)
    (ht : h.Bears s source w.store t) (hup : w.store.update t.target t.value = .ok (s', true)) :
    h.Raised s source s' t.target := by
  obtain ⟨-, ⟨hf, -⟩ | ⟨-, hnle, c, c', hc, hcontacts, hversion, -⟩⟩ := h.update_level hu.carries ht.value hup
  · cases hf
  -- whatever has been raised holds the task's value already
  have hold : w.store.contacts.get? t.target = s.contacts.get? t.target := by
    refine (hu.contacts t.target).resolve_right fun hr => hnle ?_
    rw [hr.2.2.1]
    exact ht.most
  have hbelow : ¬h.level s source ≤ h.level s t.target := fun hl => by
    refine hnle (ht.most.trans ?_)
    rw [h.level_congr hold]
    exact sup_le le_rfl hl
  have hnew : h.level s' t.target = h.level s t.target ⊔ h.level s source := by
    rw [h.level_update hu.carries ht.value hup, if_pos rfl, h.level_congr hold]
    exact le_antisymm (sup_le le_sup_left ht.most) (sup_le_sup_left ht.least _)
  refine ⟨ht.reached.tail ht.feeds, hbelow, hnew, c, c', hold ▸ hc, ?_, hversion⟩
  rw [hcontacts, Dict.get?_insert_self]

theorem Raised.congr {s' s'' : ContactStore} {id : ContactId} (hr : h.Raised s source s' id)
    (hsame : s''.contacts.get? id = s'.contacts.get? id) : h.Raised s source s'' id := by
  obtain ⟨hreaches, hbelow, hlevel, hcontacts⟩ := hr
  exact ⟨hreaches, hbelow, (h.level_congr hsame).trans hlevel, hsame ▸ hcontacts⟩

/-- A contact that a task has raised feeds everyone whom it feeds but the one that the task came from. -/
theorem Underway.raise {w w' : Walk} {t : Task} {rest : List Task} {v : Json}
    (hw : s.Wired) (hs : ∀ a b, s.Feeds a b → a ≠ source → h.level s a ≤ h.level s b)
    (hu : h.Underway s source w) (hq : w.queue = t :: rest)
    (hup : w.store.update t.target t.value = .ok (w'.store, true)) (hv : w'.store.value t.target = .ok v)
    (hqueue : w'.queue =
      rest ++ (tasksFrom w'.store t.target v (t.depth + 1)).filter fun x => x.target ≠ t.source)
    (hmarks : ∀ id, w'.Marks id → w.Marks id ∨ id = t.target)
    (hrejected : w'.stats.rejected = w.stats.rejected) : h.Underway s source w' := by
  have hb := hu.tasks t (hq ▸ List.mem_cons_self)
  have hadv := hu.advances.trans (.of_update hup)
  have hgrow := h.level_le_update hu.carries hb.value hup
  have hcarries := (h.update_level hu.carries hb.value hup).1
  obtain ⟨c, hstep⟩ := raises_of_update hq hup hv hqueue
  have htarget := hu.raised_target hb hup
  have habove : h.level s source ≤ h.level w'.store t.target := htarget.2.2.1 ▸ le_sup_right
  have hvalue : carrier v ∧ h.element v = h.level w'.store t.target :=
    ⟨(hcarries _ _ hstep.raised).2, (h.level_of_get? hstep.raised).symm⟩
  have hdown {b : ContactId} : b ∈ w'.store.downstream t.target ↔ s.Feeds t.target b := by
    rw [ContactStore.mem_downstream (hadv.wired hw), hadv.feeds_iff]
  refine ⟨hcarries, hadv, fun id => ?_, fun x hx => ?_, fun a b hab ha hl => ?_, fun id hid => ?_,
    hrejected.trans hu.rejected⟩
  · by_cases hid : id = t.target
    · exact .inr (hid ▸ htarget)
    · have hsame := hstep.others id hid
      exact (hu.contacts id).imp hsame.trans fun hr => hr.congr hsame
  · rcases hstep.mem_queue hx with hx | ⟨b, hbm, rfl⟩
    · have hbx := hu.tasks x (hq ▸ List.mem_cons_of_mem t hx)
      exact { hbx with sender := hbx.sender.trans (hgrow x.source) }
    · have hfeeds := hdown.1 hbm
      have hsource : t.target ≠ source := fun he => htarget.2.1 (he ▸ le_rfl)
      refine ⟨hvalue.1, hfeeds, htarget.1, hvalue.2 ▸ habove, ?_, habove⟩
      change h.element v ≤ _
      rw [hvalue.2, htarget.2.2.1]
      exact sup_le_sup_right (hs _ _ hfeeds hsource) _
  · by_cases hat : a = t.target
    · subst hat
      -- nothing is sent back, but the sender is above the source's level already
      by_cases hbt : b = t.source
      · exact .inl (hbt ▸ hb.sender.trans (hgrow t.source))
      · exact .inr ⟨_, hstep.queue_of_mem (hdown.2 hab) hbt, rfl⟩
    · rw [h.level_congr (hstep.others a hat)] at hl
      rcases hu.edges a b hab ha hl with hle | ⟨x, hx, rfl⟩
      · exact .inl (hle.trans (hgrow b))
      · rw [hq] at hx
        rcases List.mem_cons.1 hx with rfl | hx
        · exact .inl habove
        · exact .inr ⟨x, hstep.queue_of_mem_rest hx, rfl⟩
  · rcases hmarks id hid with hid | rfl
    · exact (hu.marked id hid).trans (hgrow id)
    · exact habove

/-- Taking up a task keeps a call on its way. -/
theorem Underway.takeUp {threshold : Nat} {w : Walk} {t : Task} {rest : List Task} (ht : 1 ≤ threshold)
    (hw : s.Wired) (hs : ∀ a b, s.Feeds a b → a ≠ source → h.level s a ≤ h.level s b)
    (hu : h.Underway s source w) (hq : w.queue = t :: rest) :
    h.Underway s source (takeUp threshold { w with queue := rest } t) := by
  have hb := hu.tasks t (hq ▸ List.mem_cons_self)
  have hmarks (id) (hid : (Propagation.takeUp threshold { w with queue := rest } t).Marks id) :
      ({ w with queue := rest } : Walk).Marks id ∨ id = t.target := marks_takeUp hid
  rcases takeUp_cases ht { w with queue := rest } t with ⟨hm, hstore, hqueue, hrejected⟩ | he
  · exact hu.drop hq (hu.marked _ hm) hstore hqueue hmarks hrejected
  rw [he] at hmarks ⊢
  rcases carryOut_cases
      { w with queue := rest, visits := w.visits.insert t.target (w.visits.getD t.target 0 + 1) } t with
    ⟨e, hup, -⟩ | ⟨s', hup, hstore, hqueue, hrejected⟩ | ⟨s', v, hup, hv, hstore, hqueue, hrejected⟩
  · -- values of the carrier are never refused
    have hin : w.store.contains t.target = true := by
      rw [hu.advances.contains_eq]
      exact (hw.ends_of_feeds hb.feeds).2
    obtain ⟨p, hp⟩ := h.update_isOk hu.carries hb.value hin
    rw [hp] at hup
    cases hup
  · obtain ⟨-, ⟨-, -, hle⟩ | ⟨hf, -⟩⟩ := h.update_level hu.carries hb.value hup
    · exact hu.drop hq (hb.least.trans hle) hstore hqueue hmarks hrejected
    · cases hf
  · exact hu.raise hw hs hq (hstore ▸ hup) (hstore ▸ hv) (hstore ▸ hqueue) hmarks hrejected

/-- A call begins with a task for everyone whom its source feeds, unless the source holds nothing. -/
theorem underway_start (hw : s.Wired) (hc : s.Carries l carrier)
    (hs : ∀ a b, s.Feeds a b → a ≠ source → h.level s a ≤ h.level s b) {current : Json}
    (hv : s.value source = .ok current) (changed : Bool) :
    h.Underway s source (start s source current changed) := by
  obtain ⟨c, hcs, rfl⟩ := ContactStore.value_eq_ok.1 hv
  have hl := h.level_of_get? hcs
  refine ⟨hc, .refl s, fun id => .inl rfl, fun t ht => ?_, fun a b hab _ hla => ?_, ?_, rfl⟩
  · simp only [start] at ht
    split at ht
    · cases ht
    · obtain ⟨b, hb, rfl⟩ := List.mem_map.1 ht
      exact ⟨(hc source c hcs).2, (ContactStore.mem_downstream hw).1 hb, .refl, hl.le, hl ▸ le_sup_right, le_rfl⟩
  · by_cases ha : a = source
    · subst ha
      simp only [start]
      split
      · next hn =>
        -- no task is needed for null, which is at the bottom
        rw [hl, Json.isNull_iff.1 hn, h.element_null]
        exact .inl bot_le
      · exact .inr ⟨_, List.mem_map.2 ⟨b, (ContactStore.mem_downstream hw).2 hab, rfl⟩, rfl⟩
    · exact .inl (hla.trans (hs a b hab ha))
  · rintro id (hn | hn)
    · exact absurd rfl hn
    · cases hn

theorem Underway.walk {limits : PropagationLimits} {w : Walk} (ht : 1 ≤ limits.cycleThreshold) (hw : s.Wired)
    (hs : ∀ a b, s.Feeds a b → a ≠ source → h.level s a ≤ h.level s b) (hu : h.Underway s source w)
    (hn : (walk limits w).stats.truncated = false) : h.Underway s source (walk limits w) := by
  have hkeeps : (Propagation.walk limits w).stats.truncated = false →
      h.Underway s source (Propagation.walk limits w) := by
    -- a call that ends too deep gives tasks up, which is why nothing is said about it
    refine walk_keeps (P := fun v => v.stats.truncated = false → h.Underway s source v) ?_ ?_ fun _ => hu
    · intro v t rest hq hv hn
      rw [truncated_takeUp] at hn
      exact (hv hn).takeUp ht hw hs hq
    · intro v _ hn
      cases hn
  exact hkeeps hn

/-- Once no task waits, everyone whom the source reaches is above its level. -/
theorem Underway.level_le_of_reaches {w : Walk} (hu : h.Underway s source w) (hq : w.queue = [])
    {id : ContactId} (hr : s.Reaches source id) : h.level s source ≤ h.level w.store id := by
  induction hr with
  | refl => exact (hu.level_eq source).elim (·.ge) (· ▸ le_sup_left)
  | tail ha hab ih =>
    rcases hu.edges _ _ hab ha ih with hle | ⟨t, ht, -⟩
    · exact hle
    · rw [hq] at ht
      cases ht

theorem Underway.level_of_reaches {w : Walk} (hu : h.Underway s source w) (hq : w.queue = [])
    {id : ContactId} (hr : s.Reaches source id) :
    h.level w.store id = h.level s id ⊔ h.level s source := by
  have hle := hu.level_le_of_reaches hq hr
  rcases hu.level_eq id with he | he
  · rw [he, sup_of_le_left (he ▸ hle)]
  · exact he

/-- Once no task waits, no connection has anything left to carry. -/
theorem Underway.level_le_of_feeds {w : Walk}
    (hs : ∀ a b, s.Feeds a b → a ≠ source → h.level s a ≤ h.level s b) (hu : h.Underway s source w)
    (hq : w.queue = []) {a b : ContactId} (hab : s.Feeds a b) : h.level w.store a ≤ h.level w.store b := by
  -- either both ends have been raised, or the source of the connection is as it was
  by_cases ha : s.Reaches source a
  · rw [hu.level_of_reaches hq ha, hu.level_of_reaches hq (ha.tail hab)]
    by_cases has : a = source
    · rw [has, sup_idem]
      exact le_sup_right
    · exact sup_le_sup_right (hs a b hab has) _
  · have hsame : h.level w.store a = h.level s a :=
      h.level_congr ((hu.contacts a).resolve_right fun hr => ha hr.1)
    have hgrow : h.level s b ≤ h.level w.store b :=
      (hu.level_eq b).elim (·.ge) (· ▸ le_sup_left)
    rw [hsame]
    exact (hs a b hab fun he => ha (he ▸ .refl)).trans hgrow

end Lattice.Lawful

end Patchbay
