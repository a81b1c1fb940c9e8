import Patchbay.Proofs.Board.Seats

/-! What validation is for: a board passes exactly if slots require pinouts that exist, gadgets and wires are declared
once, and every wire leads from an output to an input. -/

namespace Patchbay.Board

variable {b : Board}

/-! ## Well-formed boards -/

/-- An endpoint is about the one slot that it names, or about the slot of the one gadget that it names. -/
inductive About (b : Board) (e : Endpoint) (slot : SlotName) : Prop
  | named (hslot : e.slot = some slot) (hgadget : e.gadget = none)
  | seated (o : Occupant) (hslot : e.slot = none) (hgadget : e.gadget = some o.id) (ho : b.Seated slot o)

/-- An endpoint is about a declared slot, and its pin is among those that the pinout of the slot lists. -/
def Offers (b : Board) (pins : Pinout → List PinName) (e : Endpoint) : Prop :=
  ∃ slot decl p, b.About e slot ∧ b.slots.get? slot = some decl ∧ b.pinouts.get? decl.requires = some p ∧
    e.pin ∈ pins p

/-- The identities of all gadgets on the board, slot by slot. -/
def gadgetIds (b : Board) : List GadgetId := b.occupants.values.flatMap fun list => list.map (·.id)

structure WellFormed (b : Board) : Prop where
  pinouts_exist : ∀ name slot, b.slots.get? name = some slot → b.pinouts.contains slot.requires = true
  slots_declared : ∀ slot list, b.occupants.get? slot = some list → b.slots.contains slot = true
  gadgets_once : b.gadgetIds.Nodup
  wires_once : (b.wires.map (·.id)).Nodup
  sources_offered : ∀ w ∈ b.wires, b.Offers Pinout.outputs w.source
  targets_offered : ∀ w ∈ b.wires, b.Offers Pinout.inputs w.target

/-! ## Slots and occupants -/

theorem checkSlots_eq_ok : b.checkSlots = .ok () ↔
    ∀ name slot, b.slots.get? name = some slot → b.pinouts.contains slot.requires = true := by
  constructor
  · intro h name slot hs
    have hcheck := ok_of_forM h (name, slot) (Dict.get?_eq_some_iff.1 hs)
    dsimp only at hcheck
    split at hcheck
    · assumption
    · cases hcheck
  · intro h
    exact forM_eq_ok fun e he => if_pos (h e.1 e.2 (Dict.get?_eq_some_iff.2 he))

theorem checkOccupants_iff : b.checkOccupants = .ok () ↔
    (∀ slot list, b.occupants.get? slot = some list → b.slots.contains slot = true) ∧ b.gadgetIds.Nodup := by
  rw [checkOccupants_eq_ok, gadgetIds, Dict.values, List.flatMap_map]
  refine and_congr_left fun _ => ?_
  constructor
  · exact fun h slot list hl => h (slot, list) (Dict.get?_eq_some_iff.1 hl)
  · exact fun h e he => h e.1 e.2 (Dict.get?_eq_some_iff.2 he)

/-! ## Endpoints -/

/-- Where gadgets stand on one place each, the slot that is found for an endpoint is the one that it is about. -/
theorem slotAt_eq_ok (hp : b.Placed) {wire : WireId} {e : Endpoint} {slot : SlotName} :
    b.slotAt wire e = .ok slot ↔ b.About e slot := by
  unfold slotAt
  split
  · next named hslot hgadget =>
    constructor
    · rintro ⟨⟩
      exact .named hslot hgadget
    · rintro (⟨hslot', -⟩ | ⟨o, hslot', -, -⟩)
      · exact congrArg Except.ok (Option.some.inj (hslot.symm.trans hslot'))
      · cases hslot.symm.trans hslot'
  · next gadget hslot hgadget =>
    constructor
    · intro h
      split at h
      · next hfind =>
        cases h
        obtain ⟨o, hseat, rfl⟩ := seat_of_slotOf? hfind
        exact .seated o hslot hgadget (seated_of_mem_seats hseat)
      · cases h
    · rintro (⟨hslot', -⟩ | ⟨o, -, hgadget', ho⟩)
      · cases hslot.symm.trans hslot'
      · obtain rfl : gadget = o.id := Option.some.inj (hgadget.symm.trans hgadget')
        obtain ⟨i, hi⟩ := slotOf?_of_seated hp ho
        simp only [hi]
  · next hnamed hseated =>
    refine ⟨nofun, ?_⟩
    rintro (⟨hslot, hgadget⟩ | ⟨o, hslot, hgadget, -⟩)
    · exact absurd hgadget (hnamed slot hslot)
    · exact absurd hgadget (hseated o.id hslot)

theorem pinoutAt_eq_ok (hp : b.Placed) {wire : WireId} {e : Endpoint} {p : Pinout} :
    b.pinoutAt wire e = .ok p ↔
      ∃ slot decl, b.About e slot ∧ b.slots.get? slot = some decl ∧ b.pinouts.get? decl.requires = some p := by
  simp only [pinoutAt, bind_eq_ok, slotAt_eq_ok hp]
  refine exists_congr fun slot => ?_
  cases b.slots.get? slot with
  | none => simp
  | some decl => cases hpinout : b.pinouts.get? decl.requires <;> simp [hpinout]

/-- Both ends of a wire pass if their pins are offered on their sides. -/
theorem check_eq_ok (hp : b.Placed) {w : Wire} :
    b.checkSource w = .ok () ∧ b.checkTarget w = .ok () ↔
      b.Offers Pinout.outputs w.source ∧ b.Offers Pinout.inputs w.target := by
  have hoffers (pins : Pinout → List PinName) (e : Endpoint) :
      (∃ p, b.pinoutAt w.id e = .ok p ∧ (pins p).contains e.pin = true) ↔ b.Offers pins e := by
    simp only [pinoutAt_eq_ok hp, Offers, List.contains_iff_mem]
    constructor
    · rintro ⟨p, ⟨slot, decl, habout, hdecl, hpinout⟩, hpin⟩
      exact ⟨slot, decl, p, habout, hdecl, hpinout, hpin⟩
    · rintro ⟨slot, decl, p, habout, hdecl, hpinout, hpin⟩
      exact ⟨p, ⟨slot, decl, habout, hdecl, hpinout⟩, hpin⟩
  rw [checkSource_eq_ok, checkTarget_eq_ok]
  exact and_congr (hoffers _ _) (hoffers _ _)

/-- Boards pass validation exactly if they are well-formed. -/
theorem validate_iff_wellFormed (b : Board) : b.validate = .ok () ↔ b.WellFormed := by
  rw [validate_eq_ok, checkSlots_eq_ok, checkWires_eq_ok]
  constructor
  · rintro ⟨hslots, hoccupants, hends, hwires⟩
    have hp := placed_iff.1 hoccupants
    obtain ⟨hdeclared, honce⟩ := checkOccupants_iff.1 hoccupants
    exact ⟨hslots, hdeclared, honce, hwires, fun w hw => ((check_eq_ok hp).1 (hends w hw)).1,
      fun w hw => ((check_eq_ok hp).1 (hends w hw)).2⟩
  · intro h
    have hoccupants := checkOccupants_iff.2 ⟨h.slots_declared, h.gadgets_once⟩
    have hp := placed_iff.1 hoccupants
    exact ⟨h.pinouts_exist, hoccupants,
      fun w hw => (check_eq_ok hp).2 ⟨h.sources_offered w hw, h.targets_offered w hw⟩, h.wires_once⟩

end Patchbay.Board
