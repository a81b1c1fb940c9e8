import Patchbay.Contact.Store
import Patchbay.Proofs.Dict
import Patchbay.Proofs.Except

/-! The connections of a store. Every operation leaves the store wired: connections join contacts that are
there, carry numbers that have been given out, and stand in the list of the contact that they leave. -/

namespace Patchbay.ContactStore

/-- An active connection leads from one contact to another. -/
def Feeds (s : ContactStore) (a b : ContactId) : Prop :=
  ∃ id x, s.connections.get? id = some x ∧ x.active = true ∧ x.source = a ∧ x.target = b

/-- Each connection stands in the list of the contact that it leaves, and nothing else does. -/
def Listed (s : ContactStore) : Prop :=
  ∀ c id, id ∈ s.outgoing.getD c [] ↔ ∃ x, s.connections.get? id = some x ∧ x.source = c

/-- A store as its operations leave it. -/
structure Wired (s : ContactStore) : Prop where
  contact_id : ∀ id c, s.contacts.get? id = some c → c.id = id
  connection_id : ∀ id x, s.connections.get? id = some x → x.id = id
  ends : ∀ id x, s.connections.get? id = some x → s.contains x.source = true ∧ s.contains x.target = true
  numbered : ∀ id, s.connections.contains id = true → ∃ n, n ≤ s.lastConnection ∧ id = connectionId n
  listed : s.Listed

/-! ## Where values go -/

theorem mem_listTarget {s : ContactStore} {out : List ContactId} {id : ConnectionId} {t : ContactId} :
    t ∈ s.listTarget out id ↔
      t ∈ out ∨ ∃ x, s.connections.get? id = some x ∧ x.active = true ∧ x.target = t := by
  unfold listTarget
  cases s.connections.get? id with
  | none => simp
  | some x =>
    by_cases ha : x.active = true
    · by_cases hm : x.target ∈ out
      · have ht : x.target = t → t ∈ out := fun h => h ▸ hm
        simpa [ha, hm] using ht
      · simp [ha, hm, @eq_comm _ t]
    · simp [ha]

theorem mem_foldl_listTarget {s : ContactStore} {ids : List ConnectionId} {out : List ContactId}
    {t : ContactId} :
    t ∈ ids.foldl s.listTarget out ↔
      t ∈ out ∨ ∃ id ∈ ids, ∃ x, s.connections.get? id = some x ∧ x.active = true ∧ x.target = t := by
  induction ids generalizing out with
  | nil => simp
  | cons id rest ih => simp only [List.foldl_cons, ih, mem_listTarget, List.exists_mem_cons_iff, or_assoc]

theorem mem_downstream {s : ContactStore} (h : s.Wired) {c t : ContactId} :
    t ∈ s.downstream c ↔ s.Feeds c t := by
  rw [downstream, mem_foldl_listTarget]
  constructor
  · rintro (hn | ⟨id, hid, x, hx, ha, ht⟩)
    · cases hn
    · obtain ⟨y, hy, hs⟩ := (h.listed c id).1 hid
      rw [hx] at hy
      cases hy
      exact ⟨id, x, hx, ha, hs, ht⟩
  · rintro ⟨id, x, hx, ha, hs, ht⟩
    exact .inr ⟨id, (h.listed c id).2 ⟨x, hx, hs⟩, x, hx, ha, ht⟩

theorem Wired.ends_of_feeds {s : ContactStore} (h : s.Wired) {a b : ContactId} (hab : s.Feeds a b) :
    s.contains a = true ∧ s.contains b = true := by
  obtain ⟨id, x, hx, -, rfl, rfl⟩ := hab
  exact h.ends id x hx

/-! ## Dropping connections -/

theorem connections_dropConnection (s : ContactStore) (id : ConnectionId) :
    (s.dropConnection id).connections = s.connections.erase id := by
  unfold dropConnection
  split
  · next h => rw [Dict.erase_eq_self h]
  · rfl

theorem contacts_dropConnection (s : ContactStore) (id : ConnectionId) :
    (s.dropConnection id).contacts = s.contacts := by
  unfold dropConnection
  split <;> rfl

theorem lastConnection_dropConnection (s : ContactStore) (id : ConnectionId) :
    (s.dropConnection id).lastConnection = s.lastConnection := by
  unfold dropConnection
  split <;> rfl

theorem contacts_foldl_dropConnection (ids : List ConnectionId) (s : ContactStore) :
    (ids.foldl dropConnection s).contacts = s.contacts := by
  induction ids generalizing s with
  | nil => rfl
  | cons id rest ih => rw [List.foldl_cons, ih, contacts_dropConnection]

theorem lastConnection_foldl_dropConnection (ids : List ConnectionId) (s : ContactStore) :
    (ids.foldl dropConnection s).lastConnection = s.lastConnection := by
  induction ids generalizing s with
  | nil => rfl
  | cons id rest ih => rw [List.foldl_cons, ih, lastConnection_dropConnection]

theorem get?_foldl_dropConnection (ids : List ConnectionId) (s : ContactStore) (k : ConnectionId) :
    (ids.foldl dropConnection s).connections.get? k =
      if k ∈ ids then none else s.connections.get? k := by
  induction ids generalizing s with
  | nil => rfl
  | cons id rest ih =>
    rw [List.foldl_cons, ih, connections_dropConnection, Dict.get?_erase]
    by_cases hk : k = id <;> by_cases hr : k ∈ rest <;> simp [hk, hr]

theorem Listed.dropConnection {s : ContactStore} (h : s.Listed) (id : ConnectionId) :
    (s.dropConnection id).Listed := by
  intro c k
  rw [connections_dropConnection, Dict.get?_erase]
  unfold ContactStore.dropConnection
  split
  · next hn =>
    rw [h c k]
    split
    · next hk => simp [hk, hn]
    · rfl
  · next x hx =>
    simp only [Dict.getD, Dict.get?_modify]
    have hck := h c k
    rw [Dict.getD] at hck
    by_cases hc : c = x.source
    · by_cases hk : k = id
      · cases s.outgoing.get? c <;> simp [hc, hk]
      · cases ho : s.outgoing.get? c <;> simp_all
    · by_cases hk : k = id
      · subst hk
        rw [if_neg hc, hck, hx]
        simp [hc, eq_comm]
      · simp [hc, hk, hck]

theorem Listed.foldl_dropConnection {s : ContactStore} (h : s.Listed) (ids : List ConnectionId) :
    (ids.foldl ContactStore.dropConnection s).Listed :=
  foldl_keeps (fun _ id _ hs => hs.dropConnection id) h

theorem Wired.dropConnection {s : ContactStore} (h : s.Wired) (id : ConnectionId) :
    (s.dropConnection id).Wired := by
  have hof {k x} (hk : (s.connections.erase id).get? k = some x) : s.connections.get? k = some x := by
    rw [Dict.get?_erase] at hk
    split at hk
    · cases hk
    · exact hk
  refine ⟨?_, ?_, ?_, ?_, h.listed.dropConnection id⟩
  · rw [contacts_dropConnection]
    exact h.contact_id
  · rw [connections_dropConnection]
    exact fun k x hk => h.connection_id k x (hof hk)
  · rw [connections_dropConnection]
    intro k x hk
    rw [contains, contains, contacts_dropConnection]
    exact h.ends k x (hof hk)
  · rw [connections_dropConnection, lastConnection_dropConnection]
    intro k hk
    exact h.numbered k ((Dict.contains_erase ..).1 hk).2

/-! ## The other operations -/

theorem wired_empty : empty.Wired where
  contact_id := nofun
  connection_id := nofun
  ends := nofun
  numbered := nofun
  listed := fun c id => by
    rw [Dict.getD]
    simp [empty]

theorem connectionId_inj {m n : Nat} (h : connectionId m = connectionId n) : m = n := by
  have hd : Nat.toDigits 10 m = Nat.toDigits 10 n := by
    rw [← Nat.toList_repr, ← Nat.toList_repr, (String.append_right_inj _).1 h]
  rw [← Nat.ofDigitChars_toDigits (b := 10) (n := m) (by decide) (by decide), hd,
    Nat.ofDigitChars_toDigits (by decide) (by decide)]

/-- The number that the next connection gets has not been given out. -/
theorem Wired.fresh {s : ContactStore} (h : s.Wired) :
    s.connections.get? (connectionId (s.lastConnection + 1)) = none := by
  rw [← Dict.contains_eq_false_iff, ← Bool.not_eq_true]
  intro hc
  obtain ⟨n, hn, he⟩ := h.numbered _ hc
  have := connectionId_inj he
  omega

theorem Wired.register {s s' : ContactStore} (h : s.Wired) {id : ContactId} {l : Lattice}
    {initial : Option Json} (hr : s.register id l initial = .ok s') : s'.Wired := by
  unfold ContactStore.register at hr
  split at hr
  · cases hr
  · obtain ⟨v, -, hr⟩ := ok_of_bind hr
    cases hr
    refine ⟨fun k c hk => ?_, h.connection_id, fun k x hk => ?_, h.numbered, h.listed⟩
    · rw [Dict.get?_insert] at hk
      split at hk
      · next hki =>
        cases hk
        exact hki.symm
      · exact h.contact_id k c hk
    · obtain ⟨hs, ht⟩ := h.ends k x hk
      exact ⟨(Dict.contains_insert ..).2 (.inr hs), (Dict.contains_insert ..).2 (.inr ht)⟩

theorem Wired.remove {s s' : ContactStore} (h : s.Wired) {id : ContactId} {c : Contact}
    (hr : s.remove id = .ok (s', c)) : s'.Wired := by
  obtain ⟨_, -, hr⟩ := ok_of_bind hr
  cases hr
  set touching := (s.connections.values.filter fun x => x.source == id || x.target == id).map (·.id)
    with htouching
  -- what touches the contact is found by the identities that connections carry
  have hgone {k x} (hx : s.connections.get? k = some x) :
      k ∈ touching ↔ x.source = id ∨ x.target = id := by
    rw [htouching, List.mem_map]
    constructor
    · rintro ⟨y, hy, rfl⟩
      obtain ⟨hm, ht⟩ := List.mem_filter.1 hy
      obtain ⟨k', hk'⟩ := Dict.mem_values.1 hm
      rw [h.connection_id k' y hk', hk'] at hx
      cases hx
      simpa using ht
    · intro ht
      refine ⟨x, List.mem_filter.2 ⟨Dict.mem_values.2 ⟨k, hx⟩, ?_⟩, h.connection_id k x hx⟩
      simpa using ht
  set t := touching.foldl ContactStore.dropConnection { s with contacts := s.contacts.erase id } with ht
  have hc : t.contacts = s.contacts.erase id := contacts_foldl_dropConnection ..
  have hk {k x} (hx : t.connections.get? k = some x) :
      s.connections.get? k = some x ∧ ¬(x.source = id ∨ x.target = id) := by
    rw [ht, get?_foldl_dropConnection] at hx
    split at hx
    · cases hx
    · next hn => exact ⟨hx, fun he => hn ((hgone hx).2 he)⟩
  have hl : t.Listed := Listed.foldl_dropConnection (s := { s with contacts := s.contacts.erase id }) h.listed _
  refine ⟨fun k c hc' => ?_, fun k x hx => h.connection_id k x (hk hx).1, fun k x hx => ?_,
    fun k hx => ?_, fun c k => ?_⟩
  · rw [hc, Dict.get?_erase] at hc'
    split at hc'
    · cases hc'
    · exact h.contact_id k c hc'
  · obtain ⟨hx, hne⟩ := hk hx
    obtain ⟨hs, ht⟩ := h.ends k x hx
    simp only [contains, hc]
    exact ⟨(Dict.contains_erase ..).2 ⟨fun he => hne (.inl he), hs⟩,
      (Dict.contains_erase ..).2 ⟨fun he => hne (.inr he), ht⟩⟩
  · obtain ⟨x, hx⟩ := Dict.contains_iff.1 hx
    have hlast : t.lastConnection = s.lastConnection := lastConnection_foldl_dropConnection ..
    obtain ⟨n, hn, he⟩ := h.numbered k (Dict.contains_iff.2 ⟨x, (hk hx).1⟩)
    exact ⟨n, hlast ▸ hn, he⟩
  · have hck := hl c k
    rw [Dict.getD] at hck ⊢
    rw [Dict.get?_erase]
    split
    · next he =>
      have hno : ¬∃ x, t.connections.get? k = some x ∧ x.source = c := by
        rintro ⟨x, hx, hs⟩
        exact (hk hx).2 (.inl (hs.trans he))
      simpa using hno
    · exact hck

theorem Wired.connect {s s' : ContactStore} (h : s.Wired) {wire : WireId} {source target : ContactId}
    {id : ConnectionId} (hc : s.connect wire source target = .ok (s', id)) : s'.Wired := by
  unfold ContactStore.connect at hc
  split at hc
  · cases hc
  next hs =>
  split at hc
  · cases hc
  next ht =>
  cases hc
  have hs : s.contains source = true := by simpa using hs
  have ht : s.contains target = true := by simpa using ht
  have hfresh := h.fresh
  refine ⟨h.contact_id, fun k x hk => ?_, fun k x hk => ?_, fun k hk => ?_, fun c k => ?_⟩
  · rw [Dict.get?_insert] at hk
    split at hk
    · next hki =>
      cases hk
      exact hki.symm
    · exact h.connection_id k x hk
  · rw [Dict.get?_insert] at hk
    split at hk
    · cases hk
      exact ⟨hs, ht⟩
    · exact h.ends k x hk
  · rcases (Dict.contains_insert ..).1 hk with rfl | hk
    · exact ⟨_, Nat.le_refl _, rfl⟩
    · obtain ⟨n, hn, he⟩ := h.numbered k hk
      exact ⟨n, Nat.le_succ_of_le hn, he⟩
  · have hck := h.listed c k
    rw [Dict.getD] at hck ⊢
    simp only [Dict.get?_insert, Dict.getD] at hck ⊢
    by_cases hcs : c = source
    · subst hcs
      by_cases hk : k = connectionId (s.lastConnection + 1)
      · simp [hk]
      · simp [hk, hck]
    · by_cases hk : k = connectionId (s.lastConnection + 1)
      · subst hk
        simp [hcs, hck, hfresh, eq_comm]
      · simp [hcs, hk, hck]

theorem Wired.setActive {s s' : ContactStore} (h : s.Wired) {id : ConnectionId} {active : Bool}
    (ha : s.setActive id active = .ok s') : s'.Wired := by
  obtain ⟨x, hx, ha⟩ := ok_of_bind ha
  cases ha
  have hx : s.connections.get? id = some x := by
    unfold connection at hx
    split at hx
    · cases hx
      assumption
    · cases hx
  have hk {k y} (hy : (s.connections.insert id { x with active }).get? k = some y) :
      ∃ z, s.connections.get? k = some z ∧ y.id = z.id ∧ y.source = z.source ∧ y.target = z.target := by
    rw [Dict.get?_insert] at hy
    split at hy
    · next hki =>
      cases hy
      exact ⟨x, hki ▸ hx, rfl, rfl, rfl⟩
    · exact ⟨y, hy, rfl, rfl, rfl⟩
  refine ⟨h.contact_id, fun k y hy => ?_, fun k y hy => ?_, fun k hy => ?_, fun c k => ?_⟩
  · obtain ⟨z, hz, he, -⟩ := hk hy
    rw [he]
    exact h.connection_id k z hz
  · obtain ⟨z, hz, -, hs, ht⟩ := hk hy
    rw [hs, ht]
    exact h.ends k z hz
  · obtain ⟨y, hy⟩ := Dict.contains_iff.1 hy
    obtain ⟨z, hz, -⟩ := hk hy
    exact h.numbered k (Dict.contains_iff.2 ⟨z, hz⟩)
  · rw [h.listed c k]
    constructor
    · rintro ⟨y, hy, hc⟩
      by_cases hki : k = id
      · refine ⟨{ x with active }, by rw [hki, Dict.get?_insert_self], ?_⟩
        rw [hki, hx] at hy
        cases hy
        exact hc
      · exact ⟨y, by rw [Dict.get?_insert_of_ne _ hki, hy], hc⟩
    · rintro ⟨y, hy, hc⟩
      obtain ⟨z, hz, -, hs, -⟩ := hk hy
      exact ⟨z, hz, hs ▸ hc⟩

end Patchbay.ContactStore
