import Patchbay.Plan.Edit
import Patchbay.Board.Normal
import Patchbay.Proofs.Board.Validity
import Mathlib.Data.List.Pairwise

/-! Where gadgets stand. On a valid board no gadget stands in two slots, and no edit moves one from slot to slot. -/

namespace Patchbay.Board

/-- An occupant stands in a slot. -/
def Seated (b : Board) (slot : SlotName) (o : Occupant) : Prop :=
  ∃ list, b.occupants.get? slot = some list ∧ o ∈ list

theorem mem_getD_occupants {b : Board} {slot : SlotName} {o : Occupant} :
    o ∈ b.occupants.getD slot [] ↔ b.Seated slot o := by
  rw [Dict.getD, Seated]
  cases b.occupants.get? slot <;> simp

theorem mem_seats {b : Board} {slot : SlotName} {i : Nat} {o : Occupant} :
    (slot, i, o) ∈ b.seats ↔ ∃ list, b.occupants.get? slot = some list ∧ list[i]? = some o := by
  rw [seats, List.mem_flatMap]
  constructor
  · rintro ⟨⟨slot', list⟩, hm, h⟩
    obtain ⟨j, hj, he⟩ := List.mem_mapIdx.1 h
    cases he
    exact ⟨list, Dict.get?_eq_some_iff.2 hm, List.getElem?_eq_getElem hj⟩
  · rintro ⟨list, hl, ho⟩
    obtain ⟨hi, rfl⟩ := List.getElem?_eq_some_iff.1 ho
    exact ⟨(slot, list), Dict.get?_eq_some_iff.1 hl, List.mem_mapIdx.2 ⟨i, hi, rfl⟩⟩

theorem seated_of_mem_seats {b : Board} {slot : SlotName} {i : Nat} {o : Occupant}
    (h : (slot, i, o) ∈ b.seats) : b.Seated slot o := by
  obtain ⟨list, hl, ho⟩ := mem_seats.1 h
  exact ⟨list, hl, List.mem_of_getElem? ho⟩

theorem mem_seats_of_seated {b : Board} {slot : SlotName} {o : Occupant} (h : b.Seated slot o) :
    ∃ i, (slot, i, o) ∈ b.seats := by
  obtain ⟨list, hl, ho⟩ := h
  obtain ⟨i, hi⟩ := List.mem_iff_getElem?.1 ho
  exact ⟨i, mem_seats.2 ⟨list, hl, hi⟩⟩

/-- A gadget is found where it stands or elsewhere, and there by its name. -/
theorem seat_of_find? {b : Board} {slot : SlotName} {o : Occupant} (h : b.Seated slot o) :
    ∃ slot' i o', (slot', i, o') ∈ b.seats ∧ o'.id = o.id ∧ b.slotOf? o.id = some (slot', i) ∧
      b.occupant? o.id = some o' := by
  obtain ⟨i, hseat⟩ := mem_seats_of_seated h
  have hfound : (b.seats.find? fun x => x.2.2.id == o.id).isSome = true :=
    List.find?_isSome.2 ⟨_, hseat, beq_self_eq_true o.id⟩
  obtain ⟨⟨slot', i', o'⟩, hf⟩ := Option.isSome_iff_exists.1 hfound
  have hid : o'.id = o.id := by simpa using List.find?_some hf
  have hslot : b.slotOf? o.id = some (slot', i') :=
    congrArg (Option.map fun x : SlotName × Nat × Occupant => (x.1, x.2.1)) hf
  have hoccupant : b.occupant? o.id = some o' := congrArg (Option.map fun x : SlotName × Nat × Occupant => x.2.2) hf
  exact ⟨slot', i', o', List.mem_of_find?_eq_some hf, hid, hslot, hoccupant⟩

theorem seat_of_slotOf? {b : Board} {gadget : GadgetId} {slot : SlotName} {i : Nat}
    (h : b.slotOf? gadget = some (slot, i)) : ∃ o, (slot, i, o) ∈ b.seats ∧ o.id = gadget := by
  obtain ⟨⟨slot', i', o⟩, hf, he⟩ := Option.map_eq_some_iff.1 h
  cases he
  exact ⟨o, List.mem_of_find?_eq_some hf, by simpa using List.find?_some hf⟩

theorem seated_of_occupant? {b : Board} {gadget : GadgetId} {o : Occupant} (h : b.occupant? gadget = some o) :
    ∃ slot, b.Seated slot o := by
  obtain ⟨⟨slot, i, o'⟩, hf, he⟩ := Option.map_eq_some_iff.1 h
  cases he
  exact ⟨slot, seated_of_mem_seats (List.mem_of_find?_eq_some hf)⟩

theorem seated_normalize {naming : Naming} {b : Board} {slot : SlotName} {o : Occupant} :
    (b.normalize naming).Seated slot o ↔ b.Seated slot o := by
  simp only [Seated, normalize, Dict.get?_filter, Option.filter_eq_some_iff]
  constructor
  · rintro ⟨list, ⟨hl, -⟩, ho⟩
    exact ⟨list, hl, ho⟩
  · rintro ⟨list, hl, ho⟩
    refine ⟨list, ⟨hl, ?_⟩, ho⟩
    cases list with
    | nil => cases ho
    | cons => rfl

/-! ## No gadget twice -/

/-- Gadgets stand in declared slots, and no gadget stands on the board twice. -/
structure Placed (b : Board) : Prop where
  declared : ∀ slot list, b.occupants.get? slot = some list → b.slots.contains slot = true
  once : ∀ slot list, b.occupants.get? slot = some list → (list.map (·.id)).Nodup
  apart : ∀ slot slot' o o', b.Seated slot o → b.Seated slot' o' → o.id = o'.id → slot = slot'

theorem placed_iff {b : Board} : b.checkOccupants = .ok () ↔ b.Placed := by
  rw [checkOccupants_eq_ok, List.nodup_flatMap]
  constructor
  · rintro ⟨hdeclared, honce, hpair⟩
    refine ⟨fun slot list hl => hdeclared _ (Dict.get?_eq_some_iff.1 hl),
      fun slot list hl => honce _ (Dict.get?_eq_some_iff.1 hl), ?_⟩
    rintro slot slot' o o' ⟨list, hl, ho⟩ ⟨list', hl', ho'⟩ hid
    by_contra hne
    have hsymm : Std.Symm (Function.onFun List.Disjoint fun seated : SlotName × List Occupant =>
        seated.2.map (·.id)) := ⟨fun _ _ h _ hx hy => h hy hx⟩
    have hdisjoint := hpair.forall (Dict.get?_eq_some_iff.1 hl) (Dict.get?_eq_some_iff.1 hl')
      fun he => hne (congrArg Prod.fst he)
    exact hdisjoint (List.mem_map_of_mem ho) (hid ▸ List.mem_map_of_mem ho')
  · intro h
    refine ⟨fun seated hs => h.declared _ _ (Dict.get?_eq_some_iff.2 hs),
      fun seated hs => h.once _ _ (Dict.get?_eq_some_iff.2 hs), ?_⟩
    have hnodup : b.occupants.entries.Nodup := List.Nodup.of_map _ b.occupants.nodup_keys
    refine hnodup.pairwise_of_forall_ne fun x hx y hy hne id hid hid' => hne ?_
    obtain ⟨o, ho, rfl⟩ := List.mem_map.1 hid
    obtain ⟨o', ho', hsame⟩ := List.mem_map.1 hid'
    have hx := Dict.get?_eq_some_iff.2 hx
    have hy := Dict.get?_eq_some_iff.2 hy
    have hslot : x.1 = y.1 := h.apart _ _ o o' ⟨_, hx, ho⟩ ⟨_, hy, ho'⟩ hsame.symm
    rw [hslot, hy] at hx
    exact Prod.ext hslot (Option.some.inj hx).symm

theorem placed_of_validate {b : Board} (hv : b.validate = .ok ()) : b.Placed :=
  placed_iff.1 (validate_eq_ok.1 hv).2.1

/-- No gadget of a valid board stands in two slots. -/
theorem slot_eq_of_validate {b : Board} (hv : b.validate = .ok ()) {slot slot' : SlotName} {o o' : Occupant}
    (h : b.Seated slot o) (h' : b.Seated slot' o') (hid : o.id = o'.id) : slot = slot' :=
  (placed_of_validate hv).apart slot slot' o o' h h' hid

/-- A gadget of a valid board is mounted once. -/
theorem occupant_eq_of_validate {b : Board} (hv : b.validate = .ok ()) {slot : SlotName} {o o' : Occupant}
    (h : b.Seated slot o) (h' : b.Seated slot o') (hid : o.id = o'.id) : o = o' := by
  obtain ⟨list, hl, ho⟩ := h
  obtain ⟨list', hl', ho'⟩ := h'
  rw [hl] at hl'
  cases hl'
  exact List.inj_on_of_nodup_map ((placed_of_validate hv).once slot list hl) ho ho' hid

/-! ## Endpoints -/

theorem seated_of_slotOf? {b : Board} {gadget : GadgetId} {o : Occupant} {slot : SlotName} {i : Nat}
    (ho : b.occupant? gadget = some o) (hs : b.slotOf? gadget = some (slot, i)) : b.Seated slot o := by
  obtain ⟨⟨slot', j, o'⟩, hf, he⟩ := Option.map_eq_some_iff.1 ho
  cases he
  rw [slotOf?, hf] at hs
  cases hs
  exact seated_of_mem_seats (List.mem_of_find?_eq_some hf)

theorem checkSource_eq_ok {b : Board} {w : Wire} : b.checkSource w = .ok () ↔
    ∃ p, b.pinoutAt w.id w.source = .ok p ∧ p.hasOutput w.source.pin = true := by
  rw [checkSource, bind_eq_ok]
  refine exists_congr fun p => and_congr_right fun _ => ?_
  split <;> simp_all

theorem checkTarget_eq_ok {b : Board} {w : Wire} : b.checkTarget w = .ok () ↔
    ∃ p, b.pinoutAt w.id w.target = .ok p ∧ p.hasInput w.target.pin = true := by
  rw [checkTarget, bind_eq_ok]
  refine exists_congr fun p => and_congr_right fun _ => ?_
  split <;> simp_all

/-- Both ends of a wire of a valid board are about slots with the pins that it names. -/
theorem ends_of_validate {b : Board} (hv : b.validate = .ok ()) :
    ∀ w ∈ b.wires, (∃ p, b.pinoutAt w.id w.source = .ok p ∧ p.hasOutput w.source.pin = true) ∧
      ∃ p, b.pinoutAt w.id w.target = .ok p ∧ p.hasInput w.target.pin = true := by
  intro w hw
  obtain ⟨hsource, htarget⟩ := (checkWires_eq_ok.1 (validate_eq_ok.1 hv).2.2).1 w hw
  exact ⟨checkSource_eq_ok.1 hsource, checkTarget_eq_ok.1 htarget⟩

theorem slotOf?_of_seated {b : Board} (hp : b.Placed) {slot : SlotName} {o : Occupant} (ho : b.Seated slot o) :
    ∃ i, b.slotOf? o.id = some (slot, i) := by
  obtain ⟨slot', i, o', hseat, hid, hslot, -⟩ := seat_of_find? ho
  have hsame : slot' = slot := hp.apart slot' slot o' o (seated_of_mem_seats hseat) ho hid
  exact ⟨i, hsame ▸ hslot⟩

/-- An endpoint is about the slot that it was about on another board, where the gadget that it names still stands. -/
theorem slotAt_of_seated {b b' : Board} (hp : b'.Placed) {wire : WireId} {e : Endpoint} {slot : SlotName}
    (hnamed : ∀ slot o, e.gadget = some o.id → b.Seated slot o → b'.Seated slot o)
    (hs : b.slotAt wire e = .ok slot) : b'.slotAt wire e = .ok slot := by
  unfold slotAt at hs ⊢
  split at hs
  · exact hs
  · next gadget _ hgadget =>
    split at hs
    · next slot' i hfind =>
      cases hs
      obtain ⟨o, hseat, rfl⟩ := seat_of_slotOf? hfind
      have hstays : b'.Seated slot o := hnamed slot o hgadget (seated_of_mem_seats hseat)
      obtain ⟨j, hj⟩ := slotOf?_of_seated hp hstays
      simp only [hj]
    · cases hs
  · cases hs

/-- Wires of a valid board are valid on another board with the same slots, as long as the gadgets that they name stand
where they stood. -/
theorem validate_of_seated {b b' : Board} (hslots : b'.slots = b.slots) (hpinouts : b'.pinouts = b.pinouts)
    (hp : b'.Placed) (hwires : b'.wires.Sublist b.wires)
    (hnamed : ∀ w ∈ b'.wires, ∀ slot o, w.source.gadget = some o.id ∨ w.target.gadget = some o.id →
      b.Seated slot o → b'.Seated slot o)
    (hv : b.validate = .ok ()) : b'.validate = .ok () := by
  obtain ⟨hcheck, -, hends⟩ := validate_eq_ok.1 hv
  have hnodup := (checkWires_eq_ok.1 hends).2
  have hpinout {wire : WireId} {e : Endpoint} {p : Pinout}
      (hseated : ∀ slot o, e.gadget = some o.id → b.Seated slot o → b'.Seated slot o)
      (he : b.pinoutAt wire e = .ok p) : b'.pinoutAt wire e = .ok p := by
    obtain ⟨slot, hslot, he⟩ := ok_of_bind he
    refine bind_eq_ok.2 ⟨slot, slotAt_of_seated hp hseated hslot, ?_⟩
    rw [hslots, hpinouts]
    exact he
  refine validate_eq_ok.2 ⟨?_, placed_iff.2 hp, checkWires_eq_ok.2 ⟨fun w hw => ?_, hnodup.sublist (hwires.map _)⟩⟩
  · rw [checkSlots, hslots, hpinouts]
    exact hcheck
  · obtain ⟨⟨p, hsource, hpin⟩, q, htarget, hpin'⟩ := ends_of_validate hv w (hwires.subset hw)
    have hsource' := hpinout (fun slot o ho => hnamed w hw slot o (.inl ho)) hsource
    have htarget' := hpinout (fun slot o ho => hnamed w hw slot o (.inr ho)) htarget
    exact ⟨checkSource_eq_ok.2 ⟨p, hsource', hpin⟩, checkTarget_eq_ok.2 ⟨q, htarget', hpin'⟩⟩

/-! ## Edits -/

/-- A board that an edit may lead to: slots and pinouts are as they were, and gadgets have come or gone. -/
structure Beside (b b' : Board) : Prop where
  slots_eq : b'.slots = b.slots
  pinouts_eq : b'.pinouts = b.pinouts
  seats : (∀ slot o, b.Seated slot o → b'.Seated slot o) ∨ ∀ slot o, b'.Seated slot o → b.Seated slot o

theorem Beside.normalize {b b' : Board} (h : b.Beside b') (naming : Naming) :
    b.Beside (b'.normalize naming) where
  slots_eq := h.slots_eq
  pinouts_eq := h.pinouts_eq
  seats := by
    rcases h.seats with hs | hs
    · exact .inl fun slot o ho => seated_normalize.2 (hs slot o ho)
    · exact .inr fun slot o ho => hs slot o (seated_normalize.1 ho)

theorem Beside.slot_eq {b b' : Board} (h : b.Beside b') (hv : b.validate = .ok ())
    (hv' : b'.validate = .ok ()) {slot slot' : SlotName} {o o' : Occupant} (ho : b.Seated slot o)
    (ho' : b'.Seated slot' o') (hid : o.id = o'.id) : slot = slot' := by
  rcases h.seats with hs | hs
  · exact slot_eq_of_validate hv' (hs slot o ho) ho' hid
  · exact slot_eq_of_validate hv ho (hs slot' o' ho') hid

theorem Beside.occupant_eq {b b' : Board} (h : b.Beside b') (hv : b.validate = .ok ())
    (hv' : b'.validate = .ok ()) {slot : SlotName} {o o' : Occupant} (ho : b.Seated slot o)
    (ho' : b'.Seated slot o') (hid : o.id = o'.id) : o = o' := by
  rcases h.seats with hs | hs
  · exact occupant_eq_of_validate hv' (hs slot o ho) ho' hid
  · exact occupant_eq_of_validate hv ho (hs slot o' ho') hid

theorem Beside.refl (b : Board) : b.Beside b := ⟨rfl, rfl, .inl fun _ _ ho => ho⟩

theorem seated_addOccupant {b : Board} {slot slot' : SlotName} {o o' : Occupant} (h : b.Seated slot' o') :
    (b.addOccupant slot o).Seated slot' o' := by
  obtain ⟨list, hl, ho⟩ := h
  by_cases hs : slot' = slot
  · refine ⟨list ++ [o], ?_, List.mem_append_left _ ho⟩
    rw [addOccupant, hs, Dict.get?_insert_self, Dict.getD, ← hs, hl, Option.getD_some]
  · exact ⟨list, by rw [addOccupant, Dict.get?_insert_of_ne _ hs, hl], ho⟩

theorem seated_of_modify {b b' : Board} {slot slot' : SlotName} {i : Nat} {o : Occupant}
    (ho : b'.occupants = b.occupants.modify slot fun list => list.eraseIdx i) (h : b'.Seated slot' o) :
    b.Seated slot' o := by
  obtain ⟨list, hl, hm⟩ := h
  rw [ho, Dict.get?_modify] at hl
  split at hl
  · obtain ⟨list', hl', rfl⟩ := Option.map_eq_some_iff.1 hl
    exact ⟨list', hl', List.mem_of_mem_eraseIdx hm⟩
  · exact ⟨list, hl, hm⟩

theorem beside_of_apply {b b' : Board} {edit : BoardEdit} (h : edit.apply b = .ok b') : b.Beside b' := by
  -- only the last two edits touch anything but wires
  have hwires (ws : List Wire) : b.Beside { b with wires := ws } := ⟨rfl, rfl, .inl fun _ _ ho => ho⟩
  cases edit with
  | addWire wire =>
    cases h
    exact hwires _
  | updateWire id patch =>
    simp only [BoardEdit.apply, updateWire] at h
    split at h <;> cases h
    exact hwires _
  | weaveWires selector aspect =>
    simp only [BoardEdit.apply, weave] at h
    split at h <;> cases h
    exact hwires _
  | removeWire id =>
    simp only [BoardEdit.apply, removeWire] at h
    split at h <;> cases h
    exact hwires _
  | mountGadget slot o =>
    simp only [BoardEdit.apply, mount] at h
    split at h <;> cases h
    exact ⟨rfl, rfl, .inl fun _ _ ho => seated_addOccupant ho⟩
  | unmountGadget gadget =>
    simp only [BoardEdit.apply, unmount] at h
    split at h <;> cases h
    exact ⟨rfl, rfl, .inr fun _ _ ho => seated_of_modify rfl ho⟩

end Patchbay.Board
