import Patchbay.Proofs.Lattice.Element
import Mathlib.Order.BoundedOrder.Lattice

/-! Ranks. Where equivalent values are those of equal rank, and the rank of a join is the least above those of what is
joined, the laws of a join-semilattice hold of the lattice because they hold of the ranks. -/

namespace Patchbay.Lattice

variable {α : Type} [SemilatticeSup α] [OrderBot α] {l : Lattice} {carrier : Json → Prop} {rank : Json → α}

/-- The values of the carrier are told apart by their ranks, null has the least of them, and a join adds ranks up. -/
structure Ranked (l : Lattice) (carrier : Json → Prop) (rank : Json → α) : Prop where
  null_mem : carrier .null
  rank_null : rank .null = ⊥
  equivalent_iff : ∀ {a b}, carrier a → carrier b → (l.equivalent a b = true ↔ rank a = rank b)
  join : ∀ {a b}, carrier a → carrier b → ∃ c, l.join a b = .ok c ∧ carrier c ∧ rank c = rank a ⊔ rank b

namespace Ranked

theorem of_join (h : l.Ranked carrier rank) {a b c : Json} (ha : carrier a) (hb : carrier b)
    (hj : l.join a b = .ok c) : carrier c ∧ rank c = rank a ⊔ rank b := by
  obtain ⟨c', hj', hc⟩ := h.join ha hb
  rw [hj] at hj'
  cases hj'
  exact hc

theorem lawful (h : l.Ranked carrier rank) : l.Lawful carrier where
  null_mem := h.null_mem
  total ha hb := by
    obtain ⟨c, hj, hc, -⟩ := h.join ha hb
    exact ⟨c, hj, hc⟩
  refl ha := (h.equivalent_iff ha ha).2 rfl
  symm ha hb he := (h.equivalent_iff hb ha).2 ((h.equivalent_iff ha hb).1 he).symm
  trans ha hb hc he he' :=
    (h.equivalent_iff ha hc).2 (((h.equivalent_iff ha hb).1 he).trans ((h.equivalent_iff hb hc).1 he'))
  congr ha ha' hb hb' he he' hj hj' := by
    obtain ⟨hc, hr⟩ := h.of_join ha hb hj
    obtain ⟨hc', hr'⟩ := h.of_join ha' hb' hj'
    rw [h.equivalent_iff hc hc', hr, hr', (h.equivalent_iff ha ha').1 he, (h.equivalent_iff hb hb').1 he']
  comm ha hb hj hj' := by
    obtain ⟨hc, hr⟩ := h.of_join ha hb hj
    obtain ⟨hc', hr'⟩ := h.of_join hb ha hj'
    rw [h.equivalent_iff hc hc', hr, hr', sup_comm]
  assoc ha hb hc hab hx hbc hy := by
    obtain ⟨hcab, hrab⟩ := h.of_join ha hb hab
    obtain ⟨hcbc, hrbc⟩ := h.of_join hb hc hbc
    obtain ⟨hcx, hrx⟩ := h.of_join hcab hc hx
    obtain ⟨hcy, hry⟩ := h.of_join ha hcbc hy
    rw [h.equivalent_iff hcx hcy, hrx, hry, hrab, hrbc, sup_assoc]
  idem ha hj := by
    obtain ⟨hc, hr⟩ := h.of_join ha ha hj
    rw [h.equivalent_iff hc ha, hr, sup_idem]
  bottom ha hj := by
    obtain ⟨hc, hr⟩ := h.of_join h.null_mem ha hj
    rw [h.equivalent_iff hc ha, hr, h.rank_null, bot_sup_eq]

end Ranked

end Patchbay.Lattice
