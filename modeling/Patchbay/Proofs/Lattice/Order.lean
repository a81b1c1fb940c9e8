import Patchbay.Proofs.Lattice.Coherent
import Patchbay.Proofs.Lattice.Guard

/-! Orderly lattices: those that may refuse to join, and obey the laws of a join-semilattice as far as they do join.
Their values are ordered, and a join lies above what went into it. -/

namespace Patchbay.Lattice

/-- The laws of a join-semilattice on the values of a carrier, up to equivalence and wherever a join is granted. A
value outside the carrier is refused, or joining it makes no difference. -/
structure Orderly (l : Lattice) (carrier : Json → Prop) : Prop where
  bottom_mem : carrier l.bottom
  accepted : ∀ {a v c}, carrier a → l.join a v = .ok c → carrier c ∧ (carrier v ∨ l.equivalent c a = true)
  refl : ∀ {a}, carrier a → l.equivalent a a = true
  symm : ∀ {a b}, carrier a → carrier b → l.equivalent a b = true → l.equivalent b a = true
  trans : ∀ {a b c}, carrier a → carrier b → carrier c →
    l.equivalent a b = true → l.equivalent b c = true → l.equivalent a c = true
  congr : ∀ {a a' b b' c}, carrier a → carrier a' → carrier b → carrier b' →
    l.equivalent a a' = true → l.equivalent b b' = true → l.join a b = .ok c →
      ∃ c', l.join a' b' = .ok c' ∧ l.equivalent c c' = true
  comm : ∀ {a b c}, carrier a → carrier b → l.join a b = .ok c →
    ∃ c', l.join b a = .ok c' ∧ l.equivalent c c' = true
  assoc : ∀ {a b c bc x}, carrier a → carrier b → carrier c → l.join b c = .ok bc → l.join a bc = .ok x →
    ∃ ab y, l.join a b = .ok ab ∧ l.join ab c = .ok y ∧ l.equivalent x y = true
  idem : ∀ {a}, carrier a → ∃ b, l.join a a = .ok b ∧ l.equivalent b a = true

variable {l : Lattice} {carrier : Json → Prop}

theorem Orderly.coherent (h : l.Orderly carrier) : l.Coherent carrier where
  closed ha _ hj := (h.accepted ha hj).1
  refl := h.refl
  symm := h.symm
  trans := h.trans
  congr := h.congr
  comm := h.comm
  assoc := h.assoc
  idem := h.idem

/-- A lawful lattice joins all the values of its carrier, so that each law holds outright. -/
theorem Guarded.orderly (h : l.Guarded carrier) : l.Orderly carrier where
  bottom_mem := h.bottom_mem
  accepted := h.accepted
  refl := h.refl
  symm := h.symm
  trans := h.trans
  congr := h.coherent.congr
  comm := h.coherent.comm
  assoc := h.coherent.assoc
  idem := h.coherent.idem

theorem disjunction_orderly : disjunction.Orderly Flag := disjunction_guarded.orderly

end Patchbay.Lattice
