import Patchbay.Proofs.Contact.Topology

/-! When a store grants a request, and what it is afterwards. -/

namespace Patchbay.ContactStore

variable {s : ContactStore}

theorem contact_of_contains {id : ContactId} (h : s.contains id = true) : ∃ c, s.contact id = .ok c := by
  obtain ⟨c, hc⟩ := Dict.contains_iff.1 h
  exact ⟨c, by rw [contact, hc]⟩

theorem register_of_free {id : ContactId} (lattice : Lattice) (h : s.contains id = false) :
    s.register id lattice none =
      .ok { s with contacts := s.contacts.insert id { id, lattice, value := lattice.bottom } } := by
  unfold register
  rw [if_neg (Bool.eq_false_iff.1 h)]
  rfl

/-- A contact that no connection touches goes alone. -/
theorem remove_of_untouched {id : ContactId} (h : s.contains id = true)
    (hfree : ∀ k x, s.connections.get? k = some x → x.source ≠ id ∧ x.target ≠ id) :
    ∃ s' c, s.remove id = .ok (s', c) ∧ s'.contacts = s.contacts.erase id ∧
      s'.connections = s.connections := by
  obtain ⟨c, hc⟩ := contact_of_contains h
  have hnone : (s.connections.values.filter fun x => x.source == id || x.target == id) = [] := by
    rw [List.filter_eq_nil_iff]
    intro x hx
    obtain ⟨k, hk⟩ := Dict.mem_values.1 hx
    obtain ⟨hs, ht⟩ := hfree k x hk
    simp [hs, ht]
  refine ⟨{ s with contacts := s.contacts.erase id, outgoing := s.outgoing.erase id }, c, ?_, rfl, rfl⟩
  unfold remove
  rw [hc, hnone]
  rfl

theorem connect_of_contains {source target : ContactId} (wire : WireId) (hs : s.contains source = true)
    (ht : s.contains target = true) :
    ∃ s', s.connect wire source target = .ok (s', connectionId (s.lastConnection + 1)) ∧
      s'.contacts = s.contacts ∧
      s'.connections = s.connections.insert (connectionId (s.lastConnection + 1))
        { id := connectionId (s.lastConnection + 1), wire, source, target } := by
  unfold connect
  rw [hs, ht]
  exact ⟨_, rfl, rfl, rfl⟩

end Patchbay.ContactStore
