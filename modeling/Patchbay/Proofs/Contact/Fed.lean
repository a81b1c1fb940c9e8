import Patchbay.Proofs.Contact.Call
import Patchbay.Proofs.Lattice.Guard
import Mathlib.Data.Set.Insert

/-! Stores whose contacts may be on any lattices that guard their carriers, and connections along which nothing is left to
carry. What a contact holds is refused at the other end, or makes no difference there. -/

namespace Patchbay

/-- The contact is on a lattice that guards its carrier, and holds a value of it. -/
def Contact.Sound (c : Contact) : Prop := ∃ carrier, c.lattice.Guarded carrier ∧ carrier c.value

namespace ContactStore

variable {s s' : ContactStore} {a b id : ContactId} {v : Json}

def Sound (s : ContactStore) : Prop := ∀ id c, s.contacts.get? id = some c → c.Sound

/-- Writing the value to the contact makes no difference, be it because it is refused. -/
def Absorbs (s : ContactStore) (id : ContactId) (v : Json) : Prop :=
  ∀ c, s.contacts.get? id = some c → c.lattice.Absorbs c.value v

/-- Writing what `a` holds to `b` makes no difference. -/
def Fed (s : ContactStore) (a b : ContactId) : Prop := ∀ c, s.contacts.get? a = some c → s.Absorbs b c.value

/-- No contact is fed that feeds another. -/
def OneWay (s : ContactStore) : Prop := ∀ a b c, s.Feeds a b → ¬s.Feeds b c

theorem OneWay.ne (h : s.OneWay) (hab : s.Feeds a b) {c : ContactId} (hcb : s.Feeds c id) : a ≠ id := by
  rintro rfl
  exact h c a b hcb hab

theorem SameNetwork.oneWay_iff (h : s.SameNetwork s') : s'.OneWay ↔ s.OneWay := by
  simp only [OneWay, h.feeds_iff]

/-! ## Writing -/

theorem get?_write_of_ne (s : ContactStore) {p : ContactId × Json} (h : id ≠ p.1) :
    (s.write p).contacts.get? id = s.contacts.get? id := by
  rcases s.write_cases p with ⟨-, hw⟩ | ⟨c, joined, -, -, -, -, hw⟩
  · rw [hw]
  · rw [hw]
    exact Dict.get?_insert_of_ne _ h _

theorem Sound.write (h : s.Sound) (p : ContactId × Json) : (s.write p).Sound := by
  rcases s.write_cases p with ⟨-, hw⟩ | ⟨c, joined, hc, hj, -, -, hw⟩
  · rwa [hw]
  · rw [hw]
    intro k d hd
    rcases Dict.get?_insert_eq_some.1 hd with ⟨-, rfl⟩ | ⟨-, hd⟩
    · obtain ⟨carrier, hl, hm⟩ := h _ c hc
      exact ⟨carrier, hl, (hl.accepted hm hj).1⟩
    · exact h k d hd

theorem Absorbs.write (hs : s.Sound) (h : s.Absorbs id v) (p : ContactId × Json) : (s.write p).Absorbs id v := by
  rcases s.write_cases p with ⟨-, hw⟩ | ⟨c, joined, hc, hj, -, -, hw⟩
  · rwa [hw]
  · rw [hw]
    intro d hd
    rcases Dict.get?_insert_eq_some.1 hd with ⟨rfl, rfl⟩ | ⟨-, hd⟩
    · obtain ⟨carrier, hl, hm⟩ := hs _ c hc
      exact hl.absorbs_join hm hj (h c hc)
    · exact h d hd

/-- Writing a value a second time makes no difference. -/
theorem absorbs_write (hs : s.Sound) (id : ContactId) (v : Json) : (s.write (id, v)).Absorbs id v := by
  rcases s.write_cases (id, v) with ⟨hn, hw⟩ | ⟨c, joined, hc, hj, -, -, hw⟩
  · rw [hw]
    intro c hc joined hj
    by_contra he
    simp only [changeOf, hc, hj, if_neg he] at hn
    cases hn
  · rw [hw]
    intro d hd
    rw [Dict.get?_insert_self] at hd
    cases hd
    obtain ⟨carrier, hl, hm⟩ := hs _ c hc
    exact hl.absorbs_of_join hm hj

theorem Fed.write (hs : s.Sound) (h : s.Fed a b) {p : ContactId × Json} (ha : a ≠ p.1) : (s.write p).Fed a b := by
  intro c hc
  rw [get?_write_of_ne s ha] at hc
  exact (h c hc).write hs p

theorem Sound.absorbs_null (hs : s.Sound) (id : ContactId) : s.Absorbs id .null := by
  intro c hc
  obtain ⟨carrier, hl, hm⟩ := hs id c hc
  exact hl.absorbs_null hm

/-- No contact refuses null. -/
theorem Sound.update_null (hs : s.Sound) (hid : s.contains id = true) : ∃ p, s.update id .null = .ok p := by
  obtain ⟨c, hc⟩ := Dict.contains_iff.1 hid
  obtain ⟨carrier, hl, hm⟩ := hs id c hc
  obtain ⟨joined, hj, -⟩ := hl.total hm hl.null_mem
  exact exists_update hc hj

/-! ## What is due -/

/-- Along the connections out of any contacts but those of a set, there is nothing left to carry. -/
structure FedBut (s : ContactStore) (due : Set ContactId) : Prop where
  wired : s.Wired
  sound : s.Sound
  fed : ∀ a b, s.Feeds a b → s.Fed a b ∨ a ∈ due

theorem fedBut_empty : empty.FedBut ∅ where
  wired := wired_empty
  sound := nofun
  fed := by
    rintro a b ⟨id, x, hx, -⟩
    cases hx

namespace FedBut

variable {due : Set ContactId}

theorem mono (h : s.FedBut due) {due' : Set ContactId} (hd : due ⊆ due') : s.FedBut due' :=
  ⟨h.wired, h.sound, fun a b hab => (h.fed a b hab).imp_right fun ha => hd ha⟩

/-- Contacts and connections may go. -/
theorem thin (h : s.FedBut due) (hw : s'.Wired)
    (hcontacts : ∀ id c, s'.contacts.get? id = some c → s.contacts.get? id = some c)
    (hconnections : ∀ id x, s'.connections.get? id = some x → s.connections.get? id = some x) : s'.FedBut due where
  wired := hw
  sound id c hc := h.sound id c (hcontacts id c hc)
  fed := by
    rintro a b ⟨id, x, hx, ha, hs, ht⟩
    refine (h.fed a b ⟨id, x, hconnections id x hx, ha, hs, ht⟩).imp_left fun hf c hc d hd => ?_
    exact hf c (hcontacts a c hc) d (hcontacts b d hd)

theorem dropConnection (h : s.FedBut due) (id : ConnectionId) : (s.dropConnection id).FedBut due := by
  refine h.thin (h.wired.dropConnection id) (fun k c hc => ?_) fun k x hx => ?_
  · rwa [contacts_dropConnection] at hc
  · rw [connections_dropConnection] at hx
    exact (Dict.get?_erase_eq_some.1 hx).2

theorem remove (h : s.FedBut due) {c : Contact} (hr : s.remove id = .ok (s', c)) : s'.FedBut due := by
  have hw := h.wired.remove hr
  obtain ⟨_, -, hr⟩ := ok_of_bind hr
  cases hr
  refine h.thin hw (fun k d hd => ?_) fun k x hx => ?_
  · rw [contacts_foldl_dropConnection] at hd
    exact (Dict.get?_erase_eq_some.1 hd).2
  · rw [get?_foldl_dropConnection] at hx
    split at hx
    · cases hx
    · exact hx

/-- A new contact is at its bottom, and no connection touches it. -/
theorem register (h : s.FedBut due) {l : Lattice} {carrier : Json → Prop} (hl : l.Guarded carrier)
    (hr : s.register id l none = .ok s') : s'.FedBut due := by
  have hw := h.wired.register hr
  obtain ⟨v, hnew, hv, rfl⟩ := register_cases hr
  cases hv
  have hold {k : ContactId} (hk : s.contains k = true) {c : Contact}
      (hc : (s.contacts.insert id { id, lattice := l, value := l.bottom }).get? k = some c) :
      s.contacts.get? k = some c := by
    rcases Dict.get?_insert_eq_some.1 hc with ⟨rfl, -⟩ | ⟨-, hc⟩
    · rw [contains, Dict.contains, hnew] at hk
      cases hk
    · exact hc
  refine ⟨hw, fun k c hc => ?_, fun a b hab => ?_⟩
  · rcases Dict.get?_insert_eq_some.1 hc with ⟨-, rfl⟩ | ⟨-, hc⟩
    · exact ⟨carrier, hl, hl.bottom_mem⟩
    · exact h.sound k c hc
  · obtain ⟨ha, hb⟩ := h.wired.ends_of_feeds hab
    exact (h.fed a b hab).imp_left fun hf c hc d hd => hf c (hold ha hc) d (hold hb hd)

/-- What is new to a connection is due at its source. -/
theorem connect (h : s.FedBut due) {wire : WireId} {source target : ContactId} {id : ConnectionId}
    (hc : s.connect wire source target = .ok (s', id)) : s'.FedBut (insert source due) := by
  have hw := h.wired.connect hc
  unfold ContactStore.connect at hc
  split at hc
  · cases hc
  split at hc
  · cases hc
  cases hc
  refine ⟨hw, h.sound, ?_⟩
  rintro a b ⟨k, x, hx, ha, rfl, rfl⟩
  rcases Dict.get?_insert_eq_some.1 hx with ⟨-, rfl⟩ | ⟨-, hx⟩
  · exact .inr (Set.mem_insert source due)
  · exact (h.fed _ _ ⟨k, x, hx, ha, rfl, rfl⟩).imp id fun hd => Set.mem_insert_of_mem source hd

end FedBut

end ContactStore

end Patchbay
