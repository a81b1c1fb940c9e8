import Patchbay.Board.Validity
import Patchbay.Proofs.Dict
import Patchbay.Proofs.Except
import Mathlib.Data.List.Nodup

/-! What valid boards are. Each check of a board answers exactly where its occupants or its wires are as they should be,
one by one, and no name is met twice. -/

namespace Patchbay

namespace Board

/-- A step meets elements with names: it answers where the element is as it should be and its names are new, and notes
them. -/
def Meets {ε α : Type} (f : Names → α → Except ε Names) (P : α → Prop) (names : α → List String) : Prop :=
  ∀ met x met', f met x = .ok met' ↔
    P x ∧ (names x).Nodup ∧ (∀ k ∈ names x, met.contains k = false) ∧ met' = (names x).foldl Names.add met

/-- A fold of such steps meets the list as a whole. -/
theorem Meets.foldlM {ε α : Type} {f : Names → α → Except ε Names} {P : α → Prop} {names : α → List String}
    (h : Meets f P names) :
    Meets (fun met (l : List α) => l.foldlM f met) (fun l => ∀ x ∈ l, P x) fun l => l.flatMap names := by
  intro met l met'
  induction l generalizing met with
  | nil =>
    constructor
    · intro hmet
      cases hmet
      exact ⟨nofun, .nil, nofun, rfl⟩
    · rintro ⟨-, -, -, rfl⟩
      rfl
  | cons x rest ih =>
    simp only [List.foldlM_cons, bind_eq_ok, h met x, ih, List.forall_mem_cons, List.flatMap_cons,
      List.nodup_append, List.forall_mem_append, List.foldl_append]
    have hfree (k : String) : ((names x).foldl Names.add met).contains k = false ↔
        k ∉ names x ∧ met.contains k = false := by
      rw [Bool.eq_false_iff, ne_eq, Names.contains_foldl_add, not_or, Bool.not_eq_true]
    constructor
    · rintro ⟨_, ⟨hx, hnodup, hnew, rfl⟩, hrest, hnodup', hnew', rfl⟩
      refine ⟨⟨hx, hrest⟩, ⟨hnodup, hnodup', fun k hk k' hk' he => ?_⟩, ⟨hnew, fun k hk => ?_⟩, rfl⟩
      · exact ((hfree k').1 (hnew' k' hk')).1 (he ▸ hk)
      · exact ((hfree k).1 (hnew' k hk)).2
    · rintro ⟨⟨hx, hrest⟩, ⟨hnodup, hnodup', hapart⟩, ⟨hnew, hnew'⟩, rfl⟩
      refine ⟨_, ⟨hx, hnodup, hnew, rfl⟩, hrest, hnodup', fun k hk => ?_, rfl⟩
      exact (hfree k).2 ⟨fun hin => hapart k hin k hk rfl, hnew' k hk⟩

theorem Meets.eq_ok {ε α : Type} {f : Names → α → Except ε Names} {P : α → Prop} {names : α → List String}
    (h : Meets f P names) (x : α) : (do let _ ← f ∅ x) = .ok () ↔ P x ∧ (names x).Nodup := by
  rw [bind_eq_ok]
  constructor
  · rintro ⟨met, hmet, -⟩
    obtain ⟨hx, hnodup, -⟩ := (h ∅ x met).1 hmet
    exact ⟨hx, hnodup⟩
  · rintro ⟨hx, hnodup⟩
    exact ⟨_, (h ∅ x _).2 ⟨hx, hnodup, fun _ _ => rfl, rfl⟩, rfl⟩

/-! ## Occupants -/

theorem meets_meetGadget : Meets meetGadget (fun _ => True) fun o => [o.id] := by
  intro met o met'
  unfold meetGadget
  cases hmet : met.contains o.id with
  | true => simp [hmet]
  | false => simp [hmet, eq_comm (a := met')]

theorem meets_meetOccupants (b : Board) :
    Meets b.meetOccupants (fun seated => b.slots.contains seated.1 = true) fun seated => seated.2.map (·.id) := by
  intro met seated met'
  unfold meetOccupants
  split
  · next hslot =>
    have hlist := meets_meetGadget.foldlM met seated.2 met'
    simp only [← List.map_eq_flatMap, implies_true] at hlist
    simp only [hlist, hslot]
  · next hslot => simp [hslot]

theorem checkOccupants_eq_ok {b : Board} : b.checkOccupants = .ok () ↔
    (∀ seated ∈ b.occupants.entries, b.slots.contains seated.1 = true) ∧
      (b.occupants.entries.flatMap fun seated => seated.2.map (·.id)).Nodup :=
  b.meets_meetOccupants.foldlM.eq_ok b.occupants.entries

/-! ## Wires -/

theorem meets_meetWire (b : Board) :
    Meets b.meetWire (fun w => b.checkSource w = .ok () ∧ b.checkTarget w = .ok ()) fun w => [w.id] := by
  intro met w met'
  unfold meetWire
  cases hmet : met.contains w.id with
  | true => simp [hmet]
  | false => simp [bind_eq_ok, Unique.exists_iff, pure, Except.pure, hmet, and_assoc, eq_comm (a := met')]

theorem checkWires_eq_ok {b : Board} : b.checkWires = .ok () ↔
    (∀ w ∈ b.wires, b.checkSource w = .ok () ∧ b.checkTarget w = .ok ()) ∧ (b.wires.map (·.id)).Nodup := by
  rw [List.map_eq_flatMap]
  exact b.meets_meetWire.foldlM.eq_ok b.wires

theorem validate_eq_ok {b : Board} :
    b.validate = .ok () ↔ b.checkSlots = .ok () ∧ b.checkOccupants = .ok () ∧ b.checkWires = .ok () := by
  constructor
  · intro h
    obtain ⟨_, hslots, h⟩ := ok_of_bind h
    obtain ⟨_, hoccupants, hwires⟩ := ok_of_bind h
    exact ⟨hslots, hoccupants, hwires⟩
  · rintro ⟨hslots, hoccupants, hwires⟩
    exact bind_eq_ok.2 ⟨_, hslots, bind_eq_ok.2 ⟨_, hoccupants, hwires⟩⟩

end Board

end Patchbay
