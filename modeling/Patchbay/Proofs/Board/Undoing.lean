import Patchbay.Proofs.Board.Ends
import Patchbay.Proofs.Board.Mounting

/-! Edits taken back. Out of its slot goes just the gadget that came in last, and off the board just the wire that was
added, so that everything else stands where it stood. -/

namespace Patchbay.Board

variable {b : Board} {naming : Naming} {slot : SlotName} {o : Occupant} {w : Wire}

/-! ## Gadgets -/

/-- A gadget that stands on no other place of the board is new to what was there. -/
theorem new_of_placed (hp : (b.addOccupant slot o).Placed) : b.occupant? o.id = none := by
  by_contra hold
  obtain ⟨_, ho'⟩ := Option.ne_none_iff_exists'.1 hold
  obtain ⟨⟨slot', i, o'⟩, hfind, -⟩ := Option.map_eq_some_iff.1 ho'
  have hid : o'.id = o.id := by simpa using List.find?_some hfind
  obtain ⟨list, hl, hmem⟩ := seated_of_mem_seats (List.mem_of_find?_eq_some hfind)
  have hnew : (b.addOccupant slot o).Seated slot o := seated_addOccupant_iff.2 (.inr ⟨rfl, rfl⟩)
  obtain rfl := hp.apart _ _ _ _ (seated_addOccupant ⟨list, hl, hmem⟩) hnew hid
  have honce := hp.once slot' (list ++ [o]) (by rw [addOccupant, Dict.get?_insert_self, Dict.getD, hl, Option.getD_some])
  rw [List.map_append, List.nodup_append'] at honce
  exact honce.2.2 (List.mem_map_of_mem hmem) (hid ▸ List.mem_singleton_self o.id)

/-- A gadget is found where it was put, behind those that were in the slot. -/
theorem slotOf?_addOccupant (hp : (b.addOccupant slot o).Placed) :
    (b.addOccupant slot o).slotOf? o.id = some (slot, (b.occupants.getD slot []).length) := by
  have hseat : (b.addOccupant slot o).Seated slot o := seated_addOccupant_iff.2 (.inr ⟨rfl, rfl⟩)
  obtain ⟨i, hi⟩ := slotOf?_of_seated hp hseat
  obtain ⟨o', hmem, hid⟩ := seat_of_slotOf? hi
  obtain ⟨list, hl, hat⟩ := mem_seats.1 hmem
  have hlist : (b.addOccupant slot o).occupants.get? slot = some (b.occupants.getD slot [] ++ [o]) :=
    Dict.get?_insert_self ..
  obtain rfl : list = b.occupants.getD slot [] ++ [o] := Option.some.inj (hl.symm.trans hlist)
  rcases Nat.lt_trichotomy i (b.occupants.getD slot []).length with hlt | rfl | hlt
  · -- those in front have other names
    rw [List.getElem?_append_left hlt] at hat
    exact absurd hid (ne_of_seated (new_of_placed hp) (mem_getD_occupants.1 (List.mem_of_getElem? hat)))
  · exact hi
  · rw [List.getElem?_append_right (Nat.le_of_lt hlt), List.getElem?_singleton, if_neg (Nat.sub_ne_zero_of_lt hlt)] at hat
    cases hat

/-- The wires of a valid board name none but its gadgets. -/
theorem gadget_ne_of_mem_wires (hv : b.validate = .ok ()) (hnew : b.occupant? o.id = none) (hw : w ∈ b.wires) :
    w.source.gadget ≠ some o.id ∧ w.target.gadget ≠ some o.id := by
  have hnamed {wire : WireId} {e : Endpoint} {p : Pinout} (hp : b.pinoutAt wire e = .ok p) :
      e.gadget ≠ some o.id := by
    intro he
    obtain ⟨slot, hslot, -⟩ := ok_of_bind hp
    unfold slotAt at hslot
    rw [he] at hslot
    split at hslot
    · next hno => cases hno
    · next hgadget =>
      cases hgadget
      split at hslot
      · next hfind =>
        obtain ⟨o', hseat, hid⟩ := seat_of_slotOf? hfind
        exact ne_of_seated hnew (seated_of_mem_seats hseat) hid
      · cases hslot
    · cases hslot
  obtain ⟨⟨p, hp, -⟩, q, hq, -⟩ := ends_of_validate hv w hw
  exact ⟨hnamed hp, hnamed hq⟩

/-- A gadget that is mounted on a normal board and taken out again leaves the board as it was. -/
theorem unmount_addOccupant (hb : b.normalize naming = b) (hv : b.validate = .ok ())
    (hp : (b.addOccupant slot o).Placed) :
    ∃ b', (b.addOccupant slot o).unmount o.id = .ok b' ∧ b'.normalize naming = b := by
  have hnew := new_of_placed hp
  have hwires : (b.wires.filter fun w => w.source.gadget ≠ some o.id && w.target.gadget ≠ some o.id) = b.wires :=
    List.filter_eq_self.2 fun w hw => by simpa using gadget_ne_of_mem_wires hv hnew hw
  have hoccupants : (((b.addOccupant slot o).occupants.modify slot fun list =>
      list.eraseIdx (b.occupants.getD slot []).length).filter fun _ list => !list.isEmpty) = b.occupants := by
    refine Dict.ext_get? fun slot' => ?_
    rw [Dict.get?_filter, Dict.get?_modify, addOccupant, ← filter_get?_of_normal hb slot']
    by_cases hslot : slot' = slot
    · rw [if_pos hslot, hslot, Dict.get?_insert_self, Option.map_some, List.eraseIdx_append_of_length_le (Nat.le_refl _),
        Nat.sub_self, List.eraseIdx_cons_zero, List.append_nil, Dict.getD]
      cases b.occupants.get? slot <;> rfl
    · rw [if_neg hslot, Dict.get?_insert_of_ne _ hslot]
  rw [unmount, slotOf?_addOccupant hp]
  refine ⟨_, rfl, ?_⟩
  rw [normalize, hoccupants]
  change ({ b with wires := nameWires naming _ (b.wires.filter _) } : Board) = b
  rw [hwires, nameWires_eq_self (id_ne_empty_of_normal hb)]

/-! ## Wires -/

/-- The identity that a wire has once it is added. -/
def addedId (b : Board) (naming : Naming) (w : Wire) : WireId :=
  if w.id = "" then freeWireId naming (b.addWire w).givenWireIds w else w.id

theorem normalize_addWire (hb : b.normalize naming = b) :
    (b.addWire w).normalize naming = b.addWire { w with id := b.addedId naming w } := by
  have hwires : nameWires naming (b.addWire w).givenWireIds (b.addWire w).wires =
      b.wires ++ [{ w with id := b.addedId naming w }] := by
    rw [addWire, nameWires_append (id_ne_empty_of_normal hb), nameWires, addedId, addWire]
    split <;> rfl
  rw [normalize, hwires]
  simp only [addWire, filter_occupants_of_normal hb]

/-- A wire that is added to a board and removed again leaves the board as it was. -/
theorem removeWire_addWire (hv : (b.addWire w).validate = .ok ()) : (b.addWire w).removeWire w.id = .ok b := by
  have hnodup := (checkWires_eq_ok.1 (validate_eq_ok.1 hv).2.2).2
  have hwires : (b.wires ++ [w]).filter (fun v => v.id ≠ w.id) = b.wires := by
    rw [addWire, List.map_append, List.nodup_append'] at hnodup
    rw [List.filter_append, List.filter_eq_self.2, List.filter_cons_of_neg (by simp), List.filter_nil, List.append_nil]
    intro v hv
    exact decide_eq_true fun hid => hnodup.2.2 (List.mem_map_of_mem hv) (hid ▸ List.mem_singleton_self w.id)
  have hmem : ((b.addWire w).wires.any fun v => v.id == w.id) = true :=
    List.any_eq_true.2 ⟨w, List.mem_append_right _ (List.mem_singleton_self w), beq_self_eq_true w.id⟩
  rw [removeWire, if_pos hmem]
  simp only [addWire, hwires]

end Patchbay.Board
