import Patchbay.Proofs.Board.Normal
import Patchbay.Proofs.Board.Seats

/-! Boards with one more gadget. A gadget that is new to a valid board may stand in any declared slot, and nothing else
on the board is different. -/

namespace Patchbay.Board

variable {b : Board} {slot slot' : SlotName} {o o' : Occupant}

theorem seated_addOccupant_iff :
    (b.addOccupant slot o).Seated slot' o' ↔ b.Seated slot' o' ∨ (slot' = slot ∧ o' = o) := by
  constructor
  · rintro ⟨list, hl, ho⟩
    simp only [addOccupant, Dict.get?_insert] at hl
    split at hl
    · next hslot =>
      cases hl
      rcases List.mem_append.1 ho with ho | ho
      · exact .inl (hslot ▸ mem_getD_occupants.1 ho)
      · exact .inr ⟨hslot, List.mem_singleton.1 ho⟩
    · exact .inl ⟨list, hl, ho⟩
  · rintro (h | ⟨rfl, rfl⟩)
    · exact seated_addOccupant h
    · exact ⟨_, Dict.get?_insert_self .., List.mem_append_right _ (List.mem_singleton.2 rfl)⟩

theorem ne_of_seated (hnew : b.occupant? o.id = none) (h : b.Seated slot' o') : o'.id ≠ o.id := by
  intro hid
  obtain ⟨_, _, _, -, -, -, hfound⟩ := seat_of_find? h
  rw [hid, hnew] at hfound
  cases hfound

theorem placed_addOccupant (hp : b.Placed) (hslot : b.slots.contains slot = true) (hnew : b.occupant? o.id = none) :
    (b.addOccupant slot o).Placed where
  declared slot' list hl := by
    simp only [addOccupant, Dict.get?_insert] at hl
    split at hl
    · next hsame => exact hsame ▸ hslot
    · exact hp.declared slot' list hl
  once slot' list hl := by
    simp only [addOccupant, Dict.get?_insert] at hl
    split at hl
    · cases hl
      rw [Dict.getD]
      cases hl : b.occupants.get? slot with
      | none => exact List.nodup_singleton o.id
      | some list =>
        rw [Option.getD_some, List.map_append, List.map_singleton]
        refine (hp.once slot list hl).append (List.nodup_singleton o.id) fun id hid hid' => ?_
        obtain ⟨o', ho', rfl⟩ := List.mem_map.1 hid
        exact ne_of_seated hnew ⟨list, hl, ho'⟩ (List.mem_singleton.1 hid')
    · exact hp.once slot' list hl
  apart slot₁ slot₂ o₁ o₂ h₁ h₂ hid := by
    rcases seated_addOccupant_iff.1 h₁ with ho₁ | ⟨rfl, rfl⟩
    · rcases seated_addOccupant_iff.1 h₂ with ho₂ | ⟨-, rfl⟩
      · exact hp.apart slot₁ slot₂ o₁ o₂ ho₁ ho₂ hid
      · exact absurd hid (ne_of_seated hnew ho₁)
    · rcases seated_addOccupant_iff.1 h₂ with ho₂ | ⟨rfl, -⟩
      · exact absurd hid.symm (ne_of_seated hnew ho₂)
      · rfl

theorem validate_addOccupant (hv : b.validate = .ok ()) (hslot : b.slots.contains slot = true)
    (hnew : b.occupant? o.id = none) : (b.addOccupant slot o).validate = .ok () :=
  validate_of_seated (b := b) rfl rfl (placed_addOccupant (placed_of_validate hv) hslot hnew) (.refl _)
    (fun _ _ _ _ _ ho => seated_addOccupant ho) hv

theorem normalize_addOccupant {naming : Naming} (hb : b.normalize naming = b) :
    (b.addOccupant slot o).normalize naming = b.addOccupant slot o := by
  have hids := id_ne_empty_of_normal hb
  have hwires : nameWires naming (b.addOccupant slot o).givenWireIds (b.addOccupant slot o).wires =
      (b.addOccupant slot o).wires := nameWires_eq_self hids
  have hoccupants : ((b.addOccupant slot o).occupants.filter fun _ list => !list.isEmpty) =
      (b.addOccupant slot o).occupants := by
    refine Dict.ext_get? fun slot' => ?_
    simp only [addOccupant, Dict.get?_filter, Dict.get?_insert]
    split
    · simp [Option.filter]
    · exact filter_get?_of_normal hb slot'
  rw [normalize, hwires, hoccupants]

end Patchbay.Board
