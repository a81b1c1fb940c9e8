import Patchbay.Proofs.Contact.Advance

/-! Calls to a store, and what they tell. A write that makes a difference makes one change, and everyone who listens
gets a letter about it for each subscription. -/

namespace Patchbay

namespace ContactStore

theorem register_cases {s s' : ContactStore} {id : ContactId} {lattice : Lattice} {initial : Option Json}
    (h : s.register id lattice initial = .ok s') :
    ∃ v, s.contacts.get? id = none ∧ initialValue id lattice initial = .ok v ∧
      s' = { s with contacts := s.contacts.insert id { id, lattice, value := v } } := by
  unfold register at h
  split at h
  · cases h
  · next hid =>
    obtain ⟨v, hv, h⟩ := ok_of_bind h
    cases h
    exact ⟨v, Dict.contains_eq_false_iff.1 (Bool.eq_false_iff.2 hid), hv, rfl⟩

/-- The change that a write makes, if it makes any. -/
def changeOf (s : ContactStore) (id : ContactId) (v : Json) : Option ContactChange :=
  match s.contacts.get? id with
  | none => none
  | some c =>
    match c.lattice.join c.value v with
    | .error _ => none
    | .ok joined =>
      if c.lattice.equivalent joined c.value then none
      else some { contact := id, old := c.value, new := joined, version := c.version + 1 }

/-- The store after a write. One that is refused leaves it as it was. -/
def write (s : ContactStore) (p : ContactId × Json) : ContactStore :=
  match s.update p.1 p.2 with
  | .ok (s', _) => s'
  | .error _ => s

def writeAll (s : ContactStore) (ps : List (ContactId × Json)) : ContactStore := ps.foldl write s

def changes : ContactStore → List (ContactId × Json) → List ContactChange
  | _, [] => []
  | s, p :: rest => (s.changeOf p.1 p.2).toList ++ (s.write p).changes rest

/-- A write makes no difference, or it raises its contact by one change and sends the news. -/
theorem write_cases (s : ContactStore) (p : ContactId × Json) :
    (s.changeOf p.1 p.2 = none ∧ s.write p = s) ∨
    ∃ c joined, s.contacts.get? p.1 = some c ∧ c.lattice.join c.value p.2 = .ok joined ∧
      c.lattice.equivalent joined c.value = false ∧
      s.changeOf p.1 p.2 = some ⟨p.1, c.value, joined, c.version + 1⟩ ∧
      s.write p = { s with
        contacts := s.contacts.insert p.1 (raised c joined)
        mail := s.lettersOf ⟨p.1, c.value, joined, c.version + 1⟩ ++ s.mail } := by
  cases hc : s.contacts.get? p.1 with
  | none =>
    have hu : s.update p.1 p.2 = .error (.notFound p.1) := by
      simp only [update, contact, hc, bind, Except.bind]
    exact .inl ⟨by simp only [changeOf, hc], by simp only [write, hu]⟩
  | some c =>
    cases hj : c.lattice.join c.value p.2 with
    | error cause =>
      have hu : s.update p.1 p.2 = .error (.lattice p.1 cause) := by
        simp only [update, contact, hc, hj, bind, Except.bind, Except.mapError]
      exact .inl ⟨by simp only [changeOf, hc, hj], by simp only [write, hu]⟩
    | ok joined =>
      cases he : c.lattice.equivalent joined c.value with
      | true =>
        have hu : s.update p.1 p.2 = .ok (s, false) := by
          simp [update, contact, hc, hj, he, bind, Except.bind, Except.mapError, pure, Except.pure]
        exact .inl ⟨by simp [changeOf, hc, hj, he], by simp only [write, hu]⟩
      | false =>
        have hu : s.update p.1 p.2 = .ok ({ s with
            contacts := s.contacts.insert p.1 (raised c joined)
            mail := s.lettersOf ⟨p.1, c.value, joined, c.version + 1⟩ ++ s.mail }, true) := by
          simp [update, contact, hc, hj, he, bind, Except.bind, Except.mapError, pure, Except.pure, notify_eq,
            raised, lettersOf]
        exact .inr ⟨c, joined, rfl, hj, he, by simp [changeOf, hc, hj, he], by simp only [write, hu]⟩

theorem contact_of_changeOf {s : ContactStore} {id : ContactId} {v : Json} {r : ContactChange}
    (h : s.changeOf id v = some r) : r.contact = id := by
  obtain ⟨hnone, -⟩ | ⟨c, joined, -, -, -, hsome, -⟩ := s.write_cases (id, v)
  · rw [hnone] at h
    cases h
  · rw [hsome] at h
    cases h
    rfl

theorem write_of_update {s s' : ContactStore} {id : ContactId} {v : Json} {changed : Bool}
    (h : s.update id v = .ok (s', changed)) : s.write (id, v) = s' := by
  simp only [write, h]

theorem write_of_refused {s : ContactStore} {id : ContactId} {v : Json} {cause : ContactError}
    (h : s.update id v = .error cause) : s.write (id, v) = s := by
  simp only [write, h]

theorem changeOf_of_refused {s : ContactStore} {id : ContactId} {v : Json} {cause : ContactError}
    (h : s.update id v = .error cause) : s.changeOf id v = none := by
  cases hc : s.contacts.get? id with
  | none => simp only [changeOf, hc]
  | some c =>
    cases hj : c.lattice.join c.value v with
    | error _ => simp only [changeOf, hc, hj]
    | ok joined =>
      simp only [update, contact, hc, hj, bind, Except.bind, Except.mapError, pure, Except.pure] at h
      split at h <;> cases h

theorem changeOf_isSome_of_update {s s' : ContactStore} {id : ContactId} {v : Json} {changed : Bool}
    (h : s.update id v = .ok (s', changed)) : (s.changeOf id v).isSome = changed := by
  obtain ⟨c, joined, hc, hj, ⟨he, rfl, -⟩ | ⟨he, rfl, -⟩⟩ := update_cases h
  · simp only [changeOf, hc, hj, he, if_true, Option.isSome_none]
  · simp [changeOf, hc, hj, he]

theorem isSome_changeOf_iff {s : ContactStore} {id : ContactId} {v : Json} :
    (s.changeOf id v).isSome = true ↔ ∃ s', s.update id v = .ok (s', true) := by
  cases hu : s.update id v with
  | error cause => simp [changeOf_of_refused hu]
  | ok p =>
    obtain ⟨t, changed⟩ := p
    simp [changeOf_isSome_of_update hu]

theorem listeners_write (s : ContactStore) (p : ContactId × Json) : (s.write p).listeners = s.listeners := by
  rcases s.write_cases p with ⟨-, hw⟩ | ⟨c, joined, -, -, -, -, hw⟩ <;> rw [hw]

/-! ## Letters -/

/-- What a listener has been told and has not taken, oldest first. -/
def inbox (s : ContactStore) (l : Listener) : List ContactChange := (s.lettersTo (· = l)).map (·.change)

/-- How often a listener is subscribed. -/
def copies (s : ContactStore) (l : Listener) : Nat := s.listeners.countP fun x => x.2 = l

theorem copies_ne_zero {s : ContactStore} {l : Listener} {n : Subscription} (h : (n, l) ∈ s.listeners) :
    s.copies l ≠ 0 :=
  Nat.ne_of_gt (List.countP_pos_iff.2 ⟨(n, l), h, decide_eq_true rfl⟩)

theorem copies_write (s : ContactStore) (l : Listener) (p : ContactId × Json) : (s.write p).copies l = s.copies l := by
  rw [copies, copies, listeners_write]

theorem map_change_lettersOf (s : ContactStore) (l : Listener) (r : ContactChange) :
    ((s.lettersOf r).filter fun m => m.recipient = l).map (·.change) = List.replicate (s.copies l) r := by
  rw [List.eq_replicate_iff, lettersOf, copies]
  constructor
  · rw [List.length_map, ← List.countP_eq_length_filter, List.countP_reverse, List.countP_map]
    rfl
  · intro r' hr'
    obtain ⟨m, hm, rfl⟩ := List.mem_map.1 hr'
    obtain ⟨x, -, rfl⟩ := List.mem_map.1 (List.mem_reverse.1 (List.mem_filter.1 hm).1)
    rfl

theorem inbox_write (s : ContactStore) (l : Listener) (p : ContactId × Json) :
    (s.write p).inbox l =
      s.inbox l ++ (s.changeOf p.1 p.2).toList.flatMap (List.replicate (s.copies l)) := by
  rcases s.write_cases p with ⟨hc, hw⟩ | ⟨c, joined, -, -, -, hc, hw⟩
  · rw [hc, hw]
    simp
  · have hl := s.map_change_lettersOf l ⟨p.1, c.value, joined, c.version + 1⟩
    rw [hc, hw, inbox, inbox, lettersTo, lettersTo, List.filter_append, List.reverse_append, List.map_append,
      List.map_reverse, List.map_reverse, hl, List.reverse_replicate]
    simp

/-- Someone who listens has been told of a contact, by a write to it that made a difference if not before. -/
theorem exists_inbox_write {s : ContactStore} {l : Listener} {id : ContactId} (hl : s.copies l ≠ 0)
    (p : ContactId × Json) :
    (∃ r ∈ (s.write p).inbox l, r.contact = id) ↔
      (∃ r ∈ s.inbox l, r.contact = id) ∨ p.1 = id ∧ (s.changeOf p.1 p.2).isSome = true := by
  simp only [inbox_write, List.mem_append, or_and_right, exists_or]
  refine or_congr_right ?_
  cases hc : s.changeOf p.1 p.2 with
  | none => simp
  | some r => simp [contact_of_changeOf hc, hl]

theorem inbox_writeAll (s : ContactStore) (l : Listener) (ps : List (ContactId × Json)) :
    (s.writeAll ps).inbox l = s.inbox l ++ (s.changes ps).flatMap (List.replicate (s.copies l)) := by
  induction ps generalizing s with
  | nil => simp [writeAll, changes]
  | cons p rest ih =>
    rw [writeAll, List.foldl_cons]
    refine (ih (s.write p)).trans ?_
    rw [inbox_write, copies_write, changes, List.flatMap_append, List.append_assoc]

end ContactStore

/-! ## Calls -/

inductive StoreCall where
  | register (id : ContactId) (lattice : Lattice) (initial : Option Json)
  | update (id : ContactId) (v : Json)
  | remove (id : ContactId)
  | connect (wire : WireId) (source target : ContactId)
  | disconnect (id : ConnectionId)
  | setActive (id : ConnectionId) (active : Bool)
  | removeWire (wire : WireId)
  | subscribe (l : Listener)
  | unsubscribe (n : Subscription)
  | takeMail (recipient : Listener → Bool)

namespace StoreCall

def perform (s : ContactStore) : StoreCall → Except ContactError ContactStore
  | register id lattice initial => s.register id lattice initial
  | update id v => (s.update id v).map (·.1)
  | remove id => (s.remove id).map (·.1)
  | connect wire source target => (s.connect wire source target).map (·.1)
  | disconnect id => (s.disconnect id).map (·.1)
  | setActive id active => s.setActive id active
  | removeWire wire => .ok (s.removeWire wire).1
  | subscribe l => .ok (s.subscribe l).1
  | unsubscribe n => .ok (s.unsubscribe n).1
  | takeMail recipient => .ok (s.takeMail recipient).1

def writes : StoreCall → List (ContactId × Json)
  | update id v => [(id, v)]
  | _ => []

/-- What a call takes out of the inbox of a listener. -/
def taken (s : ContactStore) (l : Listener) : StoreCall → List ContactChange
  | takeMail recipient => ((s.lettersTo recipient).filter fun m => m.recipient = l).map (·.change)
  | _ => []

variable {s s' : ContactStore}

theorem exists_foldl_dropConnection (ids : List ConnectionId) (s : ContactStore) :
    ∃ connections outgoing, ids.foldl ContactStore.dropConnection s = { s with connections, outgoing } := by
  induction ids generalizing s with
  | nil => exact ⟨_, _, rfl⟩
  | cons id rest ih =>
    obtain ⟨connections, outgoing, he⟩ := ih (s.dropConnection id)
    refine ⟨connections, outgoing, ?_⟩
    rw [List.foldl_cons, he]
    unfold ContactStore.dropConnection
    split <;> rfl

theorem perform_cases {call : StoreCall} (h : call.perform s = .ok s') :
    (∃ id lattice initial v, call = .register id lattice initial ∧ s.contacts.get? id = none ∧
      ContactStore.initialValue id lattice initial = .ok v ∧
      s' = { s with contacts := s.contacts.insert id { id, lattice, value := v } }) ∨
    (∃ id v changed, call = .update id v ∧ s.update id v = .ok (s', changed)) ∨
    (∃ id connections outgoing, call = .remove id ∧
      s' = { s with contacts := s.contacts.erase id, connections, outgoing }) ∨
    (∃ connections outgoing lastConnection, call.writes = [] ∧ (∀ id, call ≠ .remove id) ∧
      (∀ l, call.taken s l = []) ∧ s' = { s with connections, outgoing, lastConnection }) ∨
    (∃ l, call = .subscribe l ∧ s' = (s.subscribe l).1) ∨
    (∃ n, call = .unsubscribe n ∧ s' = (s.unsubscribe n).1) ∨
    ∃ recipient, call = .takeMail recipient ∧ s' = (s.takeMail recipient).1 := by
  cases call with
  | register id lattice initial =>
    obtain ⟨v, hnew, hv, hs⟩ := ContactStore.register_cases h
    exact .inl ⟨id, lattice, initial, v, rfl, hnew, hv, hs⟩
  | update id v =>
    obtain ⟨⟨t, changed⟩, hu, rfl⟩ := ok_of_map h
    exact .inr (.inl ⟨id, v, changed, rfl, hu⟩)
  | remove id =>
    obtain ⟨⟨t, c⟩, hr, rfl⟩ := ok_of_map h
    obtain ⟨_, -, hr⟩ := ok_of_bind hr
    cases hr
    obtain ⟨connections, outgoing, he⟩ := exists_foldl_dropConnection
      ((s.connections.values.filter fun x => x.source == id || x.target == id).map (·.id))
      { s with contacts := s.contacts.erase id }
    refine .inr (.inr (.inl ⟨id, connections, outgoing.erase id, rfl, ?_⟩))
    simp only [he]
  | connect wire source target =>
    obtain ⟨⟨t, id⟩, hc, rfl⟩ := ok_of_map h
    unfold ContactStore.connect at hc
    split at hc
    · cases hc
    split at hc
    · cases hc
    cases hc
    exact .inr (.inr (.inr (.inl ⟨_, _, _, rfl, nofun, fun _ => rfl, rfl⟩)))
  | disconnect id =>
    obtain ⟨⟨t, x⟩, hd, rfl⟩ := ok_of_map h
    obtain ⟨_, -, hd⟩ := ok_of_bind hd
    cases hd
    obtain ⟨connections, outgoing, he⟩ := exists_foldl_dropConnection [id] s
    exact .inr (.inr (.inr (.inl ⟨connections, outgoing, _, rfl, nofun, fun _ => rfl, he⟩)))
  | setActive id active =>
    obtain ⟨x, -, ha⟩ := ok_of_bind h
    cases ha
    exact .inr (.inr (.inr (.inl ⟨_, _, _, rfl, nofun, fun _ => rfl, rfl⟩)))
  | removeWire wire =>
    cases h
    obtain ⟨connections, outgoing, he⟩ := exists_foldl_dropConnection
      ((s.connections.values.filter fun c => c.wire == wire).map (·.id)) s
    exact .inr (.inr (.inr (.inl ⟨connections, outgoing, _, rfl, nofun, fun _ => rfl, he⟩)))
  | subscribe l =>
    cases h
    exact .inr (.inr (.inr (.inr (.inl ⟨l, rfl, rfl⟩))))
  | unsubscribe n =>
    cases h
    exact .inr (.inr (.inr (.inr (.inr (.inl ⟨n, rfl, rfl⟩)))))
  | takeMail recipient =>
    cases h
    exact .inr (.inr (.inr (.inr (.inr (.inr ⟨recipient, rfl, rfl⟩)))))

/-- A call that writes nothing leaves every contact as it is but one that it registers or removes. -/
theorem get?_perform {call : StoreCall} (h : call.perform s = .ok s') (hw : call.writes = []) {id : ContactId}
    {c : Contact} (hr : call ≠ .remove id) (hc : s.contacts.get? id = some c) : s'.contacts.get? id = some c := by
  obtain ⟨k, lattice, initial, v, rfl, hk, -, rfl⟩ | ⟨k, v, changed, rfl, -⟩ | ⟨k, _, _, rfl, rfl⟩ |
    ⟨_, _, _, -, -, -, rfl⟩ | ⟨l, -, rfl⟩ | ⟨n, -, rfl⟩ | ⟨recipient, -, rfl⟩ := perform_cases h
  · rw [Dict.get?_insert_of_ne, hc]
    rintro rfl
    rw [hk] at hc
    cases hc
  · cases hw
  · rw [Dict.get?_erase_of_ne, hc]
    rintro rfl
    exact hr rfl
  all_goals exact hc

theorem update_of_perform {call : StoreCall} (h : call.perform s = .ok s') (hw : call.writes ≠ []) :
    ∃ id v changed, call = .update id v ∧ s.update id v = .ok (s', changed) := by
  cases call with
  | update id v =>
    obtain ⟨⟨t, changed⟩, hu, rfl⟩ := ok_of_map h
    exact ⟨id, v, changed, rfl, hu⟩
  | _ => exact absurd rfl hw

theorem writeAll_perform {call : StoreCall} (h : call.perform s = .ok s') (hw : call.writes ≠ []) :
    s' = s.writeAll call.writes := by
  obtain ⟨id, v, changed, rfl, hu⟩ := update_of_perform h hw
  exact (ContactStore.write_of_update hu).symm

theorem changes_of_refused {call : StoreCall} {cause : ContactError} (h : call.perform s = .error cause) :
    s.changes call.writes = [] ∧ ∀ l, call.taken s l = [] := by
  cases call with
  | update id v =>
    cases hu : s.update id v with
    | error _ =>
      refine ⟨?_, fun _ => rfl⟩
      simp only [writes, ContactStore.changes, ContactStore.changeOf_of_refused hu]
      rfl
    | ok p =>
      simp only [perform, hu, Except.map] at h
      cases h
  | takeMail recipient => cases h
  | _ => exact ⟨rfl, fun _ => rfl⟩

/-- Letters to one listener are taken together or not at all. -/
theorem taken_takeMail (s : ContactStore) (recipient : Listener → Bool) (l : Listener) :
    (takeMail recipient).taken s l ++ (s.takeMail recipient).1.inbox l = s.inbox l := by
  have hsame (p : Listener → Bool) (m : Letter) :
      (decide (m.recipient = l) && p m.recipient) = (decide (m.recipient = l) && p l) := by
    by_cases he : m.recipient = l <;> simp [he]
  simp only [taken, ContactStore.inbox, ContactStore.takeMail, ContactStore.lettersTo, List.filter_reverse,
    List.filter_filter, hsame recipient, hsame fun x => !recipient x]
  cases recipient l <;> simp

/-- What was in an inbox and what a call tells is taken by the call or is in the inbox after it. -/
theorem inbox_perform {call : StoreCall} (h : call.perform s = .ok s') (l : Listener) :
    call.taken s l ++ s'.inbox l =
      s.inbox l ++ (s.changes call.writes).flatMap (List.replicate (s.copies l)) := by
  obtain ⟨_, _, _, _, rfl, -, -, rfl⟩ | ⟨k, v, changed, rfl, hu⟩ | ⟨_, _, _, rfl, rfl⟩ | ⟨_, _, _, hn, -, ht, rfl⟩ |
    ⟨_, rfl, rfl⟩ | ⟨_, rfl, rfl⟩ | ⟨recipient, rfl, rfl⟩ := perform_cases h
  · exact (List.append_nil _).symm
  · rw [← ContactStore.write_of_update hu]
    exact s.inbox_writeAll l [(k, v)]
  · exact (List.append_nil _).symm
  · rw [hn, ht]
    exact (List.append_nil _).symm
  · exact (List.append_nil _).symm
  · exact (List.append_nil _).symm
  · exact (taken_takeMail s recipient l).trans (List.append_nil _).symm

end StoreCall

/-! ## What a listener knows -/

/-- A listener has the letters that it had, and one about each contact of a list that is no longer what it was. -/
structure ContactStore.Reports (s s' : ContactStore) (l : Listener) (contacts : List ContactId) : Prop where
  kept : ∀ m ∈ s.mail, m.recipient = l → m ∈ s'.mail
  told : ∀ id ∈ contacts, s'.contacts.get? id = s.contacts.get? id ∨
    ∃ m ∈ s'.mail, m.recipient = l ∧ m.change.contact = id

namespace ContactStore

variable {s s' : ContactStore} {l : Listener} {n : Subscription} {contacts : List ContactId}

theorem Reports.refl (s : ContactStore) (l : Listener) (contacts : List ContactId) : s.Reports s l contacts :=
  ⟨fun _ hm _ => hm, fun _ _ => .inl rfl⟩

theorem Advances.reports (h : s.Advances s') (hl : (n, l) ∈ s.listeners) (contacts : List ContactId) :
    s.Reports s' l contacts := by
  obtain ⟨letters, hmail, hnews⟩ := h.news
  refine ⟨fun m hm _ => hmail ▸ List.mem_append_right _ hm, fun id _ => (hnews id).imp_right fun hid => ?_⟩
  obtain ⟨m, hm, hrec, he⟩ := hid _ hl
  exact ⟨m, hmail ▸ List.mem_append_left _ hm, hrec, he⟩

end ContactStore

namespace StoreCall

/-- A call neither takes a listener's letters nor ends its subscription. -/
def Heeds (l : Listener) (n : Subscription) : StoreCall → Prop
  | unsubscribe m => m ≠ n
  | takeMail recipient => recipient l = false
  | _ => True

/-- A call removes no contact of a list. -/
def Spares (contacts : List ContactId) : StoreCall → Prop
  | remove id => id ∉ contacts
  | _ => True

variable {s s' : ContactStore} {l : Listener} {n : Subscription} {contacts : List ContactId}

theorem listeners_perform {call : StoreCall} (h : call.perform s = .ok s') (hc : call.Heeds l n)
    (hl : (n, l) ∈ s.listeners) : (n, l) ∈ s'.listeners := by
  obtain ⟨_, _, _, _, -, -, -, rfl⟩ | ⟨_, _, _, -, hu⟩ | ⟨_, _, _, -, rfl⟩ | ⟨_, _, _, -, -, -, rfl⟩ |
    ⟨k, -, rfl⟩ | ⟨m, rfl, rfl⟩ | ⟨_, -, rfl⟩ := perform_cases h
  · exact hl
  · rw [(ContactStore.Advances.of_update hu).listeners_eq]
    exact hl
  · exact hl
  · exact hl
  · exact List.mem_append_left _ hl
  · exact List.mem_filter.2 ⟨hl, by simpa using Ne.symm hc⟩
  · exact hl

/-- A listener that is heeded hears what becomes of contacts that are spared. -/
theorem reports_perform {call : StoreCall} (h : call.perform s = .ok s') (hh : call.Heeds l n)
    (hc : call.Spares contacts) (hl : (n, l) ∈ s.listeners) (hin : ∀ id ∈ contacts, s.contains id = true) :
    s.Reports s' l contacts ∧ ∀ id ∈ contacts, s'.contains id = true := by
  by_cases hw : call.writes = []
  · have hsame : ∀ id ∈ contacts, s'.contacts.get? id = s.contacts.get? id := by
      intro id hid
      obtain ⟨c, hget⟩ := Dict.contains_iff.1 (hin id hid)
      rw [hget]
      refine get?_perform h hw ?_ hget
      rintro rfl
      exact hc hid
    refine ⟨⟨fun m hm hrec => ?_, fun id hid => .inl (hsame id hid)⟩, fun id hid => ?_⟩
    · obtain ⟨_, _, _, _, -, -, -, rfl⟩ | ⟨_, _, _, rfl, -⟩ | ⟨_, _, _, -, rfl⟩ | ⟨_, _, _, -, -, -, rfl⟩ |
        ⟨k, -, rfl⟩ | ⟨_, -, rfl⟩ | ⟨recipient, rfl, rfl⟩ := perform_cases h
      · exact hm
      · cases hw
      · exact hm
      · exact hm
      · exact hm
      · exact hm
      · exact List.mem_filter.2 ⟨hm, by rw [hrec, show recipient l = false from hh]; rfl⟩
    · rw [ContactStore.contains, Dict.contains, hsame id hid]
      exact hin id hid
  · obtain ⟨id, v, changed, -, hu⟩ := update_of_perform h hw
    have hadv : s.Advances s' := .of_update hu
    exact ⟨hadv.reports hl contacts, fun id hid => by rw [hadv.contains_eq]; exact hin id hid⟩

end StoreCall

end Patchbay
