import Patchbay.Proofs.Board.Normal
import Patchbay.Proofs.Board.Seats

/-! Boards with parts taken away. What is left of a valid board is valid, as long as the gadgets that its wires name are
left on it. -/

namespace Patchbay.Board

/-- The board has lost gadgets and wires, but no gadget that a wire still names. -/
structure Thins (b b' : Board) : Prop where
  slots_eq : b'.slots = b.slots
  pinouts_eq : b'.pinouts = b.pinouts
  occupants : ∀ slot list', b'.occupants.get? slot = some list' →
    ∃ list, b.occupants.get? slot = some list ∧ list'.Sublist list
  wires : b'.wires.Sublist b.wires
  named : ∀ w ∈ b'.wires, ∀ slot o, w.source.gadget = some o.id ∨ w.target.gadget = some o.id →
    b.Seated slot o → b'.Seated slot o

variable {b b' : Board}

theorem Thins.seated (h : b.Thins b') {slot : SlotName} {o : Occupant} (ho : b'.Seated slot o) : b.Seated slot o := by
  obtain ⟨list', hl', ho⟩ := ho
  obtain ⟨list, hl, hsub⟩ := h.occupants slot list' hl'
  exact ⟨list, hl, hsub.subset ho⟩

theorem Thins.placed (h : b.Thins b') (hp : b.Placed) : b'.Placed where
  declared slot list' hl' := by
    obtain ⟨list, hl, -⟩ := h.occupants slot list' hl'
    rw [h.slots_eq]
    exact hp.declared slot list hl
  once slot list' hl' := by
    obtain ⟨list, hl, hsub⟩ := h.occupants slot list' hl'
    exact (hp.once slot list hl).sublist (hsub.map _)
  apart slot slot' o o' ho ho' := hp.apart slot slot' o o' (h.seated ho) (h.seated ho')

theorem Thins.validate (h : b.Thins b') (hv : b.validate = .ok ()) : b'.validate = .ok () :=
  validate_of_seated h.slots_eq h.pinouts_eq (h.placed (placed_of_validate hv)) h.wires h.named hv

/-! ## Removals -/

theorem Thins.normalize (h : b.Thins b') {naming : Naming} (hb : b.normalize naming = b) :
    b.Thins (b'.normalize naming) := by
  have hids : ∀ w ∈ b'.wires, w.id ≠ "" := fun w hw => id_ne_empty_of_normal hb w (h.wires.subset hw)
  have hwires : (b'.normalize naming).wires = b'.wires := nameWires_eq_self hids
  refine ⟨h.slots_eq, h.pinouts_eq, fun slot list' hl' => ?_, hwires.symm ▸ h.wires, fun w hw slot o hnames ho => ?_⟩
  · simp only [Board.normalize, Dict.get?_filter, Option.filter_eq_some_iff] at hl'
    exact h.occupants slot list' hl'.1
  · rw [hwires] at hw
    exact seated_normalize.2 (h.named w hw slot o hnames ho)

theorem thins_removeWire {id : WireId} (h : b.removeWire id = .ok b') : b.Thins b' := by
  unfold removeWire at h
  split at h <;> cases h
  exact ⟨rfl, rfl, fun _ list hl => ⟨list, hl, .refl list⟩, List.filter_sublist, fun _ _ _ _ _ ho => ho⟩

/-- A gadget that is not taken out stays where it stands. -/
theorem thins_unmount {gadget : GadgetId} (h : b.unmount gadget = .ok b') : b.Thins b' := by
  unfold unmount at h
  split at h
  · cases h
  next slot i hslot =>
  cases h
  obtain ⟨o, hseat, hid⟩ := seat_of_slotOf? hslot
  obtain ⟨list, hl, ho⟩ := mem_seats.1 hseat
  refine ⟨rfl, rfl, fun slot' list' hl' => ?_, List.filter_sublist, fun w hw slot' o' hnames ho' => ?_⟩
  · simp only [Dict.get?_modify] at hl'
    split at hl'
    · obtain ⟨list, hl, rfl⟩ := Option.map_eq_some_iff.1 hl'
      exact ⟨list, hl, List.eraseIdx_sublist list i⟩
    · exact ⟨list', hl', .refl list'⟩
  · have hother : o'.id ≠ gadget := by
      intro he
      have hkept := (List.mem_filter.1 hw).2
      rcases hnames with hn | hn <;> simp [hn, he] at hkept
    obtain ⟨list', hl', hmem⟩ := ho'
    rw [Seated, Dict.get?_modify]
    split
    · next hsame =>
      subst hsame
      rw [hl] at hl'
      cases hl'
      refine ⟨list.eraseIdx i, by rw [hl]; rfl, List.mem_eraseIdx_iff_getElem?.2 ?_⟩
      obtain ⟨j, hj⟩ := List.mem_iff_getElem?.1 hmem
      refine ⟨j, ?_, hj⟩
      rintro rfl
      rw [ho] at hj
      cases hj
      exact hother hid
    · exact ⟨list', hl', hmem⟩

theorem exists_removeWire {w : Wire} (hw : w ∈ b.wires) : ∃ b', b.removeWire w.id = .ok b' := by
  have hany : (b.wires.any fun w' => w'.id == w.id) = true := List.any_eq_true.2 ⟨w, hw, beq_self_eq_true w.id⟩
  rw [removeWire, if_pos hany]
  exact ⟨_, rfl⟩

theorem exists_unmount {gadget : GadgetId} (h : (b.occupant? gadget).isSome = true) :
    ∃ b', b.unmount gadget = .ok b' := by
  obtain ⟨o, ho⟩ := Option.isSome_iff_exists.1 h
  obtain ⟨seat, hf, -⟩ := Option.map_eq_some_iff.1 ho
  rw [unmount, slotOf?, hf]
  exact ⟨_, rfl⟩

end Patchbay.Board
