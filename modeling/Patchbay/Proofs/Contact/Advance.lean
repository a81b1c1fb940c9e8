import Patchbay.Proofs.Contact.Topology

/-! What joins do to a store. They leave the network as it was, and whoever listens has a letter about every
contact that is no longer what it was. -/

namespace Patchbay.ContactStore

theorem get?_of_contact {s : ContactStore} {id : ContactId} {c : Contact} (h : s.contact id = .ok c) :
    s.contacts.get? id = some c := by
  unfold contact at h
  split at h
  · cases h
    assumption
  · cases h

theorem contact_eq_ok {s : ContactStore} {id : ContactId} {c : Contact} :
    s.contact id = .ok c ↔ s.contacts.get? id = some c := by
  refine ⟨get?_of_contact, fun h => ?_⟩
  rw [contact, h]

theorem value_eq_ok {s : ContactStore} {id : ContactId} {v : Json} :
    s.value id = .ok v ↔ ∃ c, s.contacts.get? id = some c ∧ c.value = v := by
  constructor
  · intro h
    obtain ⟨c, hc, hv⟩ := ok_of_map h
    exact ⟨c, get?_of_contact hc, hv⟩
  · rintro ⟨c, hc, rfl⟩
    rw [value, contact, hc]
    rfl

/-- The letters about a change, as they lie in the store. -/
def lettersOf (s : ContactStore) (change : ContactChange) : List Letter :=
  (s.listeners.map fun x => ⟨x.2, change⟩).reverse

theorem notify_eq (s : ContactStore) (change : ContactChange) :
    s.notify change = { s with mail := s.lettersOf change ++ s.mail } := by
  have hfold (ls : List (Subscription × Listener)) (mail : List Letter) :
      ls.foldl (fun mail (x : Subscription × Listener) => ⟨x.2, change⟩ :: mail) mail =
        (ls.map fun x => ⟨x.2, change⟩).reverse ++ mail := by
    induction ls generalizing mail with
    | nil => rfl
    | cons x rest ih => simp [ih]
  rw [notify, lettersOf, ← hfold]

def raised (c : Contact) (joined : Json) : Contact := { c with value := joined, version := c.version + 1 }

/-- A join leaves the store as it was, or it raises the contact and sends the news. -/
theorem update_cases {s s' : ContactStore} {id : ContactId} {v : Json} {changed : Bool}
    (h : s.update id v = .ok (s', changed)) :
    ∃ c joined, s.contacts.get? id = some c ∧ c.lattice.join c.value v = .ok joined ∧
      ((c.lattice.equivalent joined c.value = true ∧ changed = false ∧ s' = s) ∨
        (c.lattice.equivalent joined c.value = false ∧ changed = true ∧
          ∃ change : ContactChange, change.contact = id ∧
            s' = { s with
              contacts := s.contacts.insert id (raised c joined)
              mail := s.lettersOf change ++ s.mail })) := by
  obtain ⟨c, hc, h⟩ := ok_of_bind h
  obtain ⟨joined, hj, h⟩ := ok_of_bind h
  refine ⟨c, joined, get?_of_contact hc, ok_of_mapError hj, ?_⟩
  split at h
  · next he =>
    cases h
    exact .inl ⟨he, rfl, rfl⟩
  · next he =>
    cases h
    refine .inr ⟨Bool.eq_false_iff.2 he, rfl, ⟨id, c.value, joined, c.version + 1⟩, rfl, ?_⟩
    rw [notify_eq]
    rfl

/-- A write is refused only where the join is. -/
theorem exists_update {s : ContactStore} {id : ContactId} {v joined : Json} {c : Contact}
    (hc : s.contacts.get? id = some c) (hj : c.lattice.join c.value v = .ok joined) : ∃ p, s.update id v = .ok p := by
  simp only [update, contact_eq_ok.2 hc, hj, bind, Except.bind, Except.mapError, pure, Except.pure]
  split <;> exact ⟨_, rfl⟩

/-- A contact that took a value has one. -/
theorem exists_value_of_update {s s' : ContactStore} {id : ContactId} {v : Json} {changed : Bool}
    (h : s.update id v = .ok (s', changed)) : ∃ current, s'.value id = .ok current := by
  obtain ⟨hin, hkeys⟩ := keys_of_update h
  obtain ⟨c, hc⟩ := Dict.contains_iff.1 (Dict.mem_keys.1 (hkeys ▸ hin))
  exact ⟨c.value, value_eq_ok.2 ⟨c, hc, rfl⟩⟩

/-- Two stores have the same contacts, on the same lattices, the same connections and the same listeners. Values and
news may differ. -/
structure SameNetwork (s s' : ContactStore) : Prop where
  static : ∀ id, (s'.contacts.get? id).map (fun c => (c.id, c.lattice)) =
    (s.contacts.get? id).map fun c => (c.id, c.lattice)
  connections_eq : s'.connections = s.connections
  outgoing_eq : s'.outgoing = s.outgoing
  listeners_eq : s'.listeners = s.listeners
  lastConnection_eq : s'.lastConnection = s.lastConnection
  lastSubscription_eq : s'.lastSubscription = s.lastSubscription

namespace SameNetwork

theorem refl (s : ContactStore) : s.SameNetwork s := ⟨fun _ => rfl, rfl, rfl, rfl, rfl, rfl⟩

theorem trans {s t u : ContactStore} (h : s.SameNetwork t) (k : t.SameNetwork u) : s.SameNetwork u where
  static id := (k.static id).trans (h.static id)
  connections_eq := k.connections_eq.trans h.connections_eq
  outgoing_eq := k.outgoing_eq.trans h.outgoing_eq
  listeners_eq := k.listeners_eq.trans h.listeners_eq
  lastConnection_eq := k.lastConnection_eq.trans h.lastConnection_eq
  lastSubscription_eq := k.lastSubscription_eq.trans h.lastSubscription_eq

variable {s s' : ContactStore}

theorem symm (h : s.SameNetwork s') : s'.SameNetwork s where
  static id := (h.static id).symm
  connections_eq := h.connections_eq.symm
  outgoing_eq := h.outgoing_eq.symm
  listeners_eq := h.listeners_eq.symm
  lastConnection_eq := h.lastConnection_eq.symm
  lastSubscription_eq := h.lastSubscription_eq.symm

theorem contains_eq (h : s.SameNetwork s') (id : ContactId) : s'.contains id = s.contains id := by
  have hs := congrArg Option.isSome (h.static id)
  rw [Option.isSome_map, Option.isSome_map] at hs
  exact hs

/-- A contact that was there is there still, with its lattice. -/
theorem get? (h : s.SameNetwork s') {id : ContactId} {c : Contact} (hc : s.contacts.get? id = some c) :
    ∃ c', s'.contacts.get? id = some c' ∧ c'.id = c.id ∧ c'.lattice = c.lattice := by
  have hs := h.static id
  rw [hc, Option.map_some, Option.map_eq_some_iff] at hs
  obtain ⟨c', hc', he⟩ := hs
  obtain ⟨hid, hl⟩ := Prod.mk.inj he
  exact ⟨c', hc', hid, hl⟩

theorem feeds_iff (h : s.SameNetwork s') {a b : ContactId} : s'.Feeds a b ↔ s.Feeds a b := by
  rw [Feeds, Feeds, h.connections_eq]

theorem downstream_eq (h : s.SameNetwork s') (id : ContactId) : s'.downstream id = s.downstream id := by
  have hlist : s'.listTarget = s.listTarget := by
    funext out conn
    rw [listTarget, listTarget, h.connections_eq]
  rw [downstream, downstream, h.outgoing_eq, hlist]

theorem wired (h : s.SameNetwork s') (hs : s.Wired) : s'.Wired where
  contact_id id c hc := by
    obtain ⟨c', hc', hid, -⟩ := h.symm.get? hc
    rw [← hid]
    exact hs.contact_id id c' hc'
  connection_id := h.connections_eq ▸ hs.connection_id
  ends id x hx := by
    rw [h.contains_eq, h.contains_eq]
    exact hs.ends id x (h.connections_eq ▸ hx)
  numbered := by
    rw [h.connections_eq, h.lastConnection_eq]
    exact hs.numbered
  listed c id := by
    rw [h.outgoing_eq, h.connections_eq]
    exact hs.listed c id

end SameNetwork

/-- One store comes from another by joins. -/
structure Advances (s s' : ContactStore) : Prop extends s.SameNetwork s' where
  news : ∃ letters, s'.mail = letters ++ s.mail ∧
    ∀ id, s'.contacts.get? id = s.contacts.get? id ∨
      ∀ x ∈ s.listeners, ∃ m ∈ letters, m.recipient = x.2 ∧ m.change.contact = id

namespace Advances

theorem refl (s : ContactStore) : s.Advances s := ⟨.refl s, [], rfl, fun _ => .inl rfl⟩

theorem trans {s t u : ContactStore} (h : s.Advances t) (k : t.Advances u) : s.Advances u where
  toSameNetwork := h.toSameNetwork.trans k.toSameNetwork
  news := by
    obtain ⟨as, ha, hna⟩ := h.news
    obtain ⟨bs, hb, hnb⟩ := k.news
    refine ⟨bs ++ as, by rw [hb, ha, List.append_assoc], fun id => ?_⟩
    rcases hnb id with hu | hu
    · rcases hna id with ht | ht
      · exact .inl (hu.trans ht)
      · refine .inr fun x hx => ?_
        obtain ⟨m, hm, he⟩ := ht x hx
        exact ⟨m, List.mem_append_right bs hm, he⟩
    · refine .inr fun x hx => ?_
      obtain ⟨m, hm, he⟩ := hu x (h.listeners_eq ▸ hx)
      exact ⟨m, List.mem_append_left as hm, he⟩

theorem of_update {s s' : ContactStore} {id : ContactId} {v : Json} {changed : Bool}
    (h : s.update id v = .ok (s', changed)) : s.Advances s' := by
  obtain ⟨c, joined, hc, -, ⟨-, -, rfl⟩ | ⟨-, -, change, hid, rfl⟩⟩ := update_cases h
  · exact refl s'
  · refine ⟨⟨fun k => ?_, rfl, rfl, rfl, rfl, rfl⟩, s.lettersOf change, rfl, fun k => ?_⟩
    · rw [Dict.get?_insert]
      split
      · next hk => rw [hk, hc, Option.map_some, Option.map_some, raised]
      · rfl
    · rw [Dict.get?_insert]
      split
      · next hk =>
        refine .inr fun x hx => ⟨⟨x.2, change⟩, ?_, rfl, hid.trans hk.symm⟩
        exact List.mem_reverse.2 (List.mem_map.2 ⟨x, hx, rfl⟩)
      · exact .inl rfl

end Advances

end Patchbay.ContactStore
