import Patchbay.Proofs.Board.Normal
import Patchbay.Proofs.Board.Seats

/-! The ends of wires across an edit. A wire that keeps its identity keeps its ends, and an end that is named as before is
about the same slot with the same pins, whoever stands there by now. -/

namespace Patchbay

/-- Two wires have one identity and lead from the same endpoint to the same endpoint, with whatever aspects. -/
structure Wire.SameEnds (w' w : Wire) : Prop where
  id_eq : w'.id = w.id
  source_eq : w'.source = w.source
  target_eq : w'.target = w.target

theorem Wire.SameEnds.refl (w : Wire) : w.SameEnds w := ⟨rfl, rfl, rfl⟩

theorem WirePatch.sameEnds_apply (p : WirePatch) (w : Wire) : (p.apply w).SameEnds w := ⟨rfl, rfl, rfl⟩

namespace Board

variable {b b' : Board} {naming : Naming}

/-! ## Edits -/

theorem sameEnds_of_patchWires {id : WireId} {patch : WirePatch} {ws ws' : List Wire}
    (h : patchWires id patch ws = some ws') : ∀ w' ∈ ws', ∃ w ∈ ws, w'.SameEnds w := by
  induction ws generalizing ws' with
  | nil => cases h
  | cons w rest ih =>
    rw [patchWires] at h
    split at h
    · cases h
      intro w' hw'
      rcases List.mem_cons.1 hw' with rfl | hw'
      · exact ⟨w, List.mem_cons_self, patch.sameEnds_apply w⟩
      · exact ⟨w', List.mem_cons_of_mem w hw', .refl w'⟩
    · obtain ⟨rest', hrest, rfl⟩ := Option.map_eq_some_iff.1 h
      intro w' hw'
      rcases List.mem_cons.1 hw' with rfl | hw'
      · exact ⟨w', List.mem_cons_self, .refl w'⟩
      · obtain ⟨v, hv, hsame⟩ := ih hrest w' hw'
        exact ⟨v, List.mem_cons_of_mem w hv, hsame⟩

/-- An edit changes the wires that there are and takes some of them away, or adds one to them. -/
theorem wires_of_apply {edit : BoardEdit} (h : edit.apply b = .ok b') :
    (∀ w' ∈ b'.wires, ∃ w ∈ b.wires, w'.SameEnds w) ∨ ∃ w, b'.wires = b.wires ++ [w] := by
  have hkept {ws : List Wire} (hsub : ws ⊆ b.wires) : ∀ w' ∈ ws, ∃ w ∈ b.wires, w'.SameEnds w :=
    fun w' hw' => ⟨w', hsub hw', .refl w'⟩
  cases edit with
  | addWire wire =>
    cases h
    exact .inr ⟨wire, rfl⟩
  | updateWire id patch =>
    simp only [BoardEdit.apply, updateWire] at h
    split at h <;> cases h
    next hpatch => exact .inl (sameEnds_of_patchWires hpatch)
  | weaveWires selector aspect =>
    simp only [BoardEdit.apply, weave] at h
    split at h <;> cases h
    refine .inl fun w' hw' => ?_
    obtain ⟨w, hw, rfl⟩ := List.mem_map.1 hw'
    refine ⟨w, hw, ?_⟩
    split
    · exact ⟨rfl, rfl, rfl⟩
    · exact .refl w
  | removeWire id =>
    simp only [BoardEdit.apply, removeWire] at h
    split at h <;> cases h
    exact .inl (hkept (List.filter_sublist.subset))
  | mountGadget slot o =>
    simp only [BoardEdit.apply, mount] at h
    split at h <;> cases h
    exact .inl (hkept (List.Subset.refl _))
  | unmountGadget gadget =>
    simp only [BoardEdit.apply, unmount] at h
    split at h <;> cases h
    exact .inl (hkept (List.filter_sublist.subset))

theorem nameWires_append {taken : Names} {ws : List Wire} (h : ∀ w ∈ ws, w.id ≠ "") (ws' : List Wire) :
    nameWires naming taken (ws ++ ws') = ws ++ nameWires naming taken ws' := by
  induction ws with
  | nil => rfl
  | cons w rest ih =>
    rw [List.cons_append, nameWires, if_neg (h w List.mem_cons_self),
      ih fun v hv => h v (List.mem_cons_of_mem w hv), List.cons_append]

/-- Wires that have one identity before and after an edit have the same ends. -/
theorem sameEnds_of_apply {edit : BoardEdit} (hb : b.normalize naming = b) (hv : b.validate = .ok ())
    (h : edit.apply b = .ok b') (hv' : (b'.normalize naming).validate = .ok ()) {w w' : Wire} (hw : w ∈ b.wires)
    (hw' : w' ∈ (b'.normalize naming).wires) (hid : w'.id = w.id) : w'.SameEnds w := by
  have hnamed := id_ne_empty_of_normal hb
  have hnodup := (checkWires_eq_ok.1 (validate_eq_ok.1 hv).2.2).2
  have hnodup' := (checkWires_eq_ok.1 (validate_eq_ok.1 hv').2.2).2
  rcases wires_of_apply h with hstems | ⟨new, hadd⟩
  · have hnamed' : ∀ v' ∈ b'.wires, v'.id ≠ "" := by
      intro v' hmem
      obtain ⟨v, hmem, hsame⟩ := hstems v' hmem
      exact hsame.id_eq ▸ hnamed v hmem
    have hwires : (b'.normalize naming).wires = b'.wires := nameWires_eq_self hnamed'
    obtain ⟨v, hmem, hsame⟩ := hstems w' (hwires ▸ hw')
    rwa [List.inj_on_of_nodup_map hnodup hw hmem (hid.symm.trans hsame.id_eq)]
  · -- all wires from before are there as they were, so that a new one of the same identity would be a second
    have hkept : w ∈ (b'.normalize naming).wires := by
      change w ∈ nameWires naming b'.givenWireIds b'.wires
      rw [hadd, nameWires_append hnamed]
      exact List.mem_append_left _ hw
    rw [List.inj_on_of_nodup_map hnodup' hw' hkept hid]
    exact .refl w

/-! ## Ends -/

theorem Beside.slotAt_eq (h : b.Beside b') (hv : b.validate = .ok ()) (hv' : b'.validate = .ok ()) {wire : WireId}
    {e : Endpoint} {slot slot' : SlotName} (hs : b.slotAt wire e = .ok slot) (hs' : b'.slotAt wire e = .ok slot') :
    slot = slot' := by
  unfold slotAt at hs hs'
  split at hs
  · next hslot hgadget =>
    rw [hslot, hgadget] at hs'
    exact Except.ok.inj (hs.symm.trans hs')
  · next gadget hslot hgadget =>
    rw [hslot, hgadget] at hs'
    dsimp only at hs'
    split at hs
    · next hfind =>
      cases hs
      split at hs'
      · next hfind' =>
        cases hs'
        obtain ⟨o, hseat, hid⟩ := seat_of_slotOf? hfind
        obtain ⟨o', hseat', hid'⟩ := seat_of_slotOf? hfind'
        exact h.slot_eq hv hv' (seated_of_mem_seats hseat) (seated_of_mem_seats hseat') (hid.trans hid'.symm)
      · cases hs'
    · cases hs
  · cases hs

theorem Beside.pinoutAt_eq (h : b.Beside b') (hv : b.validate = .ok ()) (hv' : b'.validate = .ok ()) {wire : WireId}
    {e : Endpoint} {p p' : Pinout} (hp : b.pinoutAt wire e = .ok p) (hp' : b'.pinoutAt wire e = .ok p') : p = p' := by
  obtain ⟨slot, hslot, hp⟩ := ok_of_bind hp
  obtain ⟨slot', hslot', hp'⟩ := ok_of_bind hp'
  rw [h.slots_eq, h.pinouts_eq, ← h.slotAt_eq hv hv' hslot hslot', hp] at hp'
  exact Except.ok.inj hp'

end Board

end Patchbay
