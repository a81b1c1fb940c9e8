import Patchbay.Board.Normal
import Patchbay.Proofs.Dict
import Mathlib.Data.Nat.Find

/-! Normal form: the search for an identity ends where one is free, and a board that is brought into normal form twice
is the board brought into it once. -/

namespace Patchbay

namespace Naming

theorem identify_ne_empty (n : Naming) {kind : String} (h : kind ≠ "") (parts : List String) :
    n.identify kind parts ≠ "" := by
  intro he
  rw [identify, String.append_eq_empty_iff] at he
  exact h he.1

theorem wire_ne_empty (n : Naming) (source target : Endpoint) (occurrence : Nat) :
    n.wire source target occurrence ≠ "" := n.identify_ne_empty (by decide) _

end Naming

namespace Board

/-! ## The search for an identity -/

section

variable {taken : Names} {candidate : Nat → WireId} {id : WireId}

/-- The search ends with the first candidate that is not taken. -/
theorem firstFree?_eq_some_iff {left i : Nat} : firstFree? taken candidate left i = some id ↔
    ∃ n, i ≤ n ∧ n < i + left ∧ (∀ j, i ≤ j → j < n → taken.contains (candidate j) = true) ∧
      taken.contains (candidate n) = false ∧ candidate n = id := by
  induction left generalizing i with
  | zero => exact iff_of_false nofun fun ⟨n, hn, hlt, _⟩ => absurd hlt (Nat.not_lt.2 hn)
  | succ left ih =>
    rw [firstFree?]
    split
    · next htaken =>
      rw [ih]
      constructor
      · rintro ⟨n, hn, hlt, hbefore, hfree, he⟩
        refine ⟨n, by omega, by omega, fun j hij hjn => ?_, hfree, he⟩
        rcases Nat.lt_or_eq_of_le hij with hlt | rfl
        · exact hbefore j hlt hjn
        · exact htaken
      · rintro ⟨n, hn, hlt, hbefore, hfree, he⟩
        have hne : i ≠ n := by
          rintro rfl
          rw [htaken] at hfree
          cases hfree
        exact ⟨n, by omega, by omega, fun j hij => hbefore j (by omega), hfree, he⟩
    · next hfree =>
      constructor
      · rintro ⟨⟩
        exact ⟨i, Nat.le_refl i, by omega, fun j hij hji => absurd hji (Nat.not_lt.2 hij),
          Bool.eq_false_iff.2 hfree, rfl⟩
      · rintro ⟨n, hn, -, hbefore, -, rfl⟩
        obtain rfl : i = n := by
          by_contra hne
          exact hfree (hbefore i (Nat.le_refl i) (by omega))
        rfl

theorem exists_firstFree? {left : Nat} (h : ∃ i < left, taken.contains (candidate i) = false) :
    ∃ id, firstFree? taken candidate left 0 = some id := by
  obtain ⟨⟨hlt, hfree⟩, hleast⟩ := Nat.find_spec h, fun j => Nat.find_min (m := j) h
  refine ⟨_, firstFree?_eq_some_iff.2 ⟨Nat.find h, Nat.zero_le _, by omega, fun j _ hj => ?_, hfree, rfl⟩⟩
  by_contra htaken
  exact hleast j hj ⟨Nat.lt_trans hj hlt, Bool.eq_false_iff.2 htaken⟩

theorem contains_of_firstFree? {left : Nat} (h : firstFree? taken candidate left 0 = some id) :
    taken.contains id = false := by
  obtain ⟨n, -, -, -, hfree, rfl⟩ := firstFree?_eq_some_iff.1 h
  exact hfree

end

/-! ## Normal form -/

theorem freeWireId_ne_empty (naming : Naming) (taken : Names) (w : Wire) :
    freeWireId naming taken w ≠ "" := by
  rw [freeWireId]
  cases h : firstFree? taken (naming.wire w.source w.target) occurrences 0 with
  | none => exact naming.wire_ne_empty _ _ _
  | some id =>
    obtain ⟨n, -, -, -, -, rfl⟩ := firstFree?_eq_some_iff.1 h
    exact naming.wire_ne_empty _ _ _

theorem freeWireId_of_firstFree? {naming : Naming} {taken : Names} {w : Wire} {id : WireId}
    (h : firstFree? taken (naming.wire w.source w.target) occurrences 0 = some id) :
    freeWireId naming taken w = id := by
  rw [freeWireId, h, Option.getD_some]

theorem id_ne_empty_of_mem_nameWires {naming : Naming} {taken : Names} {ws : List Wire} {w : Wire}
    (h : w ∈ nameWires naming taken ws) : w.id ≠ "" := by
  induction ws generalizing taken with
  | nil => cases h
  | cons v rest ih =>
    rw [nameWires] at h
    split at h
    · rcases List.mem_cons.1 h with rfl | h
      · exact freeWireId_ne_empty naming taken v
      · exact ih h
    · next hv =>
      rcases List.mem_cons.1 h with rfl | h
      · exact hv
      · exact ih h

theorem nameWires_eq_self {naming : Naming} {taken : Names} {ws : List Wire}
    (h : ∀ w ∈ ws, w.id ≠ "") : nameWires naming taken ws = ws := by
  induction ws generalizing taken with
  | nil => rfl
  | cons w rest ih =>
    rw [nameWires, if_neg (h w List.mem_cons_self), ih fun v hv => h v (List.mem_cons_of_mem w hv)]

/-- Normal form is reached at once. -/
theorem normalize_normalize (naming : Naming) (b : Board) :
    (b.normalize naming).normalize naming = b.normalize naming := by
  have hw : nameWires naming (b.normalize naming).givenWireIds (b.normalize naming).wires =
      (b.normalize naming).wires :=
    nameWires_eq_self fun w hw => id_ne_empty_of_mem_nameWires hw
  have ho : ((b.normalize naming).occupants.filter fun _ list => !list.isEmpty) =
      (b.normalize naming).occupants := by
    apply Dict.ext_get?
    intro k
    simp only [normalize, Dict.get?_filter, Option.filter_filter, Bool.and_self]
  rw [normalize, hw, ho]

/-! ## What normal boards have -/

variable {b : Board} {naming : Naming}

theorem id_ne_empty_of_normal (hb : b.normalize naming = b) : ∀ w ∈ b.wires, w.id ≠ "" := by
  intro w hw
  have hw : w ∈ (b.normalize naming).wires := hb.symm ▸ hw
  exact id_ne_empty_of_mem_nameWires hw

theorem filter_occupants_of_normal (hb : b.normalize naming = b) :
    (b.occupants.filter fun _ list => !list.isEmpty) = b.occupants := congrArg Board.occupants hb

theorem filter_get?_of_normal (hb : b.normalize naming = b) (slot : SlotName) :
    (b.occupants.get? slot).filter (fun list => !list.isEmpty) = b.occupants.get? slot := by
  have hget := Dict.get?_filter b.occupants (fun _ list => !list.isEmpty) slot
  rwa [filter_occupants_of_normal hb, eq_comm] at hget

end Board

end Patchbay
