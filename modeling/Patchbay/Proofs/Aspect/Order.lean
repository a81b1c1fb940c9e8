import Patchbay.Aspect.Registry
import Patchbay.Proofs.Dict

/-! The order in which aspects stand on a wire. Ranks are ordered totally, so that aspects that occur once have one
canonical order. -/

namespace Patchbay

namespace AspectRank

theorem le_iff {a b : AspectRank} : a.le b = true ↔ (a.unknown = false ∧ b.unknown = true) ∨
    a.unknown = b.unknown ∧ (a.order < b.order ∨ a.order = b.order ∧ a.id ≤ b.id) := by
  unfold le
  split
  · next h => cases ha : a.unknown <;> cases hb : b.unknown <;> simp_all
  · next h =>
    have hu : a.unknown = b.unknown := by simpa using h
    split
    · next ho => simp [hu, ho]
    · next ho =>
      have ho : a.order = b.order := by simpa using ho
      simp [hu, ho]

theorem le_trans {a b c : AspectRank} (hab : a.le b = true) (hbc : b.le c = true) : a.le c = true := by
  rw [le_iff] at hab hbc ⊢
  rcases hab with ⟨ha, hb⟩ | ⟨hab, hab'⟩
  · rcases hbc with ⟨hb', -⟩ | ⟨hbc, -⟩
    · simp_all
    · exact .inl ⟨ha, hbc ▸ hb⟩
  · rcases hbc with ⟨hb, hc⟩ | ⟨hbc, hbc'⟩
    · exact .inl ⟨hab ▸ hb, hc⟩
    · refine .inr ⟨hab.trans hbc, ?_⟩
      rcases hab' with hab' | ⟨hab', hid⟩
      · rcases hbc' with hbc' | ⟨hbc', -⟩
        · exact .inl (Int.lt_trans hab' hbc')
        · exact .inl (hbc' ▸ hab')
      · rcases hbc' with hbc' | ⟨hbc', hid'⟩
        · exact .inl (hab' ▸ hbc')
        · exact .inr ⟨hab'.trans hbc', String.le_trans hid hid'⟩

theorem le_total (a b : AspectRank) : (a.le b || b.le a) = true := by
  rw [Bool.or_eq_true, le_iff, le_iff]
  rcases Int.lt_trichotomy a.order b.order with ho | ho | ho <;>
    rcases String.le_total a.id b.id with hid | hid <;>
    cases ha : a.unknown <;> cases hb : b.unknown <;> simp [ho, hid]

end AspectRank

namespace AspectRegistry

variable (r : AspectRegistry)

/-- One aspect stands before another: both are registered, and it has the lower order, or the same and a lower name. -/
def Before (id id' : AspectId) : Prop := ∃ m m', r.get? id = some m ∧ r.get? id' = some m' ∧
  (m.order < m'.order ∨ m.order = m'.order ∧ id < id')

theorem perm_sortIds (ids : List AspectId) : (r.sortIds ids).Perm ids := List.mergeSort_perm ids _

theorem pairwise_sortIds (ids : List AspectId) :
    (r.sortIds ids).Pairwise fun id id' => (r.rank id).le (r.rank id') = true := by
  let le (id id' : AspectId) : Bool := (r.rank id).le (r.rank id')
  have htrans : ∀ a b c, le a b = true → le b c = true → le a c = true := fun _ _ _ => AspectRank.le_trans
  have htotal : ∀ a b, (le a b || le b a) = true := fun a b => AspectRank.le_total (r.rank a) (r.rank b)
  exact List.pairwise_mergeSort htrans htotal ids

theorem before_of_le {id id' : AspectId} {m m' : Manifest} (hm : r.get? id = some m) (hm' : r.get? id' = some m')
    (hle : (r.rank id).le (r.rank id') = true) (hne : id ≠ id') : r.Before id id' := by
  rw [AspectRank.le_iff, rank, rank, hm, hm'] at hle
  refine ⟨m, m', hm, hm', ?_⟩
  rcases hle with ⟨-, hu⟩ | ⟨-, ho | ⟨ho, hid⟩⟩
  · cases hu
  · exact .inl ho
  · exact .inr ⟨ho, Std.lt_of_le_of_ne hid hne⟩

end AspectRegistry

end Patchbay
