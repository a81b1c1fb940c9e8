import Patchbay.Proofs.Contact.Advance

/-! The stores that operations build, one after the other, from the store without contacts. -/

namespace Patchbay.ContactStore

inductive Built : ContactStore → Prop
  | empty : Built .empty
  | register {s s' id lattice initial} : Built s → s.register id lattice initial = .ok s' → Built s'
  | update {s s' id v changed} : Built s → s.update id v = .ok (s', changed) → Built s'
  | remove {s s' id c} : Built s → s.remove id = .ok (s', c) → Built s'
  | connect {s s' wire source target id} : Built s → s.connect wire source target = .ok (s', id) → Built s'
  | disconnect {s s' id x} : Built s → s.disconnect id = .ok (s', x) → Built s'
  | setActive {s s' id active} : Built s → s.setActive id active = .ok s' → Built s'
  | removeWire {s} (wire) : Built s → Built (s.removeWire wire).1
  | subscribe {s} (l) : Built s → Built (s.subscribe l).1
  | unsubscribe {s} (n) : Built s → Built (s.unsubscribe n).1
  | takeMail {s} (recipient) : Built s → Built (s.takeMail recipient).1

theorem Built.wired {s : ContactStore} (h : s.Built) : s.Wired := by
  induction h with
  | empty => exact wired_empty
  | register _ hr ih => exact ih.register hr
  | update _ hu ih => exact (Advances.of_update hu).wired ih
  | remove _ hr ih => exact ih.remove hr
  | connect _ hc ih => exact ih.connect hc
  | disconnect _ hd ih =>
    obtain ⟨x, -, hd⟩ := ok_of_bind hd
    cases hd
    exact ih.dropConnection _
  | setActive _ ha ih => exact ih.setActive ha
  | removeWire wire _ ih => exact foldl_keeps (fun _ id _ hs => hs.dropConnection id) ih
  | subscribe _ _ ih => exact ⟨ih.contact_id, ih.connection_id, ih.ends, ih.numbered, ih.listed⟩
  | unsubscribe _ _ ih => exact ⟨ih.contact_id, ih.connection_id, ih.ends, ih.numbered, ih.listed⟩
  | takeMail _ _ ih => exact ⟨ih.contact_id, ih.connection_id, ih.ends, ih.numbered, ih.listed⟩

end Patchbay.ContactStore
