import Patchbay.Proofs.Contact.Advance
import Patchbay.Proofs.Lattice.Element

/-! Stores whose contacts share a lawful lattice: the element that each contact holds, and how joins raise it. -/

namespace Patchbay

namespace ContactStore

/-- Every contact is on one lattice and holds a value of its carrier. -/
def Carries (s : ContactStore) (l : Lattice) (carrier : Json → Prop) : Prop :=
  ∀ id c, s.contacts.get? id = some c → c.lattice = l ∧ carrier c.value

/-- Joining the value of `a` into `b` makes no difference there. -/
def Satisfied (s : ContactStore) (a b : ContactId) : Prop :=
  ∃ c d, s.contacts.get? a = some c ∧ s.contacts.get? b = some d ∧ d.lattice.Below c.value d.value

end ContactStore

namespace Lattice.Lawful

variable {l : Lattice} {carrier : Json → Prop} (h : l.Lawful carrier) {s s' : ContactStore}

/-- The element that a contact holds. One that is not there holds none but the bottom. -/
noncomputable def level (s : ContactStore) (id : ContactId) : h.Element :=
  ((s.contacts.get? id).map fun c => h.element c.value).getD ⊥

theorem level_of_get? {id : ContactId} {c : Contact} (hc : s.contacts.get? id = some c) :
    h.level s id = h.element c.value := by
  rw [level, hc]
  rfl

theorem level_of_none {id : ContactId} (hc : s.contacts.get? id = none) : h.level s id = ⊥ := by
  rw [level, hc]
  rfl

theorem level_congr {id : ContactId} (hc : s'.contacts.get? id = s.contacts.get? id) :
    h.level s' id = h.level s id := by
  rw [level, level, hc]

theorem satisfied_iff (hs : s.Carries l carrier) {a b : ContactId} (ha : s.contains a = true)
    (hb : s.contains b = true) : s.Satisfied a b ↔ h.level s a ≤ h.level s b := by
  obtain ⟨c, hc⟩ := Dict.contains_iff.1 ha
  obtain ⟨d, hd⟩ := Dict.contains_iff.1 hb
  obtain ⟨hlc, hvc⟩ := hs a c hc
  obtain ⟨hld, hvd⟩ := hs b d hd
  rw [h.level_of_get? hc, h.level_of_get? hd, ← h.below_iff hvc hvd]
  constructor
  · rintro ⟨c', d', hc', hd', hle⟩
    rw [hc] at hc'
    rw [hd] at hd'
    cases hc'
    cases hd'
    exact hld ▸ hle
  · exact fun hle => ⟨c, d, hc, hd, hld ▸ hle⟩

include h in
/-- A value of the carrier is refused by no contact that is there. -/
theorem update_isOk (hs : s.Carries l carrier) {id : ContactId} {v : Json} (hv : carrier v)
    (hid : s.contains id = true) : ∃ p, s.update id v = .ok p := by
  obtain ⟨c, hc⟩ := Dict.contains_iff.1 hid
  obtain ⟨rfl, hcv⟩ := hs id c hc
  obtain ⟨joined, hj, -⟩ := h.total hcv hv
  exact ContactStore.exists_update hc hj

/-- A join makes no difference, or it raises its contact above the level that it had. -/
theorem update_level (hs : s.Carries l carrier) {id : ContactId} {v : Json} {changed : Bool}
    (hv : carrier v) (hu : s.update id v = .ok (s', changed)) :
    s'.Carries l carrier ∧
      ((changed = false ∧ s' = s ∧ h.element v ≤ h.level s id) ∨
        (changed = true ∧ ¬h.element v ≤ h.level s id ∧
          ∃ c c', s.contacts.get? id = some c ∧ s'.contacts = s.contacts.insert id c' ∧
            c'.version = c.version + 1 ∧ h.element c'.value = h.element c.value ⊔ h.element v)) := by
  obtain ⟨c, joined, hc, hj, hcases⟩ := ContactStore.update_cases hu
  obtain ⟨rfl, hcv⟩ := hs id c hc
  obtain ⟨hm, he⟩ := h.element_join hcv hv hj
  have hle := h.element_le_iff hv hcv hj
  rw [← h.level_of_get? hc] at hle
  rcases hcases with ⟨heq, rfl, rfl⟩ | ⟨hne, rfl, change, -, rfl⟩
  · exact ⟨hs, .inl ⟨rfl, rfl, hle.2 heq⟩⟩
  · refine ⟨fun k d hd => ?_, .inr ⟨rfl, fun hl => ?_, c, ContactStore.raised c joined, hc, rfl, rfl, he⟩⟩
    · rw [Dict.get?_insert] at hd
      split at hd
      · cases hd
        exact ⟨rfl, hm⟩
      · exact hs k d hd
    · rw [hle.1 hl] at hne
      cases hne

theorem level_update (hs : s.Carries l carrier) {id : ContactId} {v : Json} {changed : Bool}
    (hv : carrier v) (hu : s.update id v = .ok (s', changed)) (k : ContactId) :
    h.level s' k = if k = id then h.level s id ⊔ h.element v else h.level s k := by
  obtain ⟨-, ⟨-, rfl, hle⟩ | ⟨-, -, c, c', hc, hs', -, he⟩⟩ := h.update_level hs hv hu
  · split
    · next hk => rw [hk, sup_of_le_left hle]
    · rfl
  · rw [level, hs', Dict.get?_insert]
    split
    · rw [h.level_of_get? hc, ← he]
      rfl
    · rfl

theorem level_le_update (hs : s.Carries l carrier) {id : ContactId} {v : Json} {changed : Bool}
    (hv : carrier v) (hu : s.update id v = .ok (s', changed)) (k : ContactId) :
    h.level s k ≤ h.level s' k := by
  rw [h.level_update hs hv hu]
  split
  · next hk =>
    rw [hk]
    exact le_sup_left
  · exact le_rfl

end Lattice.Lawful

end Patchbay
