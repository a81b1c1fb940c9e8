import Patchbay.Lattice.Builtin
import Mathlib.Order.Lattice
import Mathlib.Order.BoundedOrder.Basic

/-! Lawful lattices and their elements. A lattice over JSON values obeys the laws of a join-semilattice on a
carrier and up to its equivalence only; the values of the carrier up to equivalence obey them outright. -/

namespace Patchbay

/-- The laws of a join-semilattice with null at the bottom, on the values of a carrier and up to equivalence. -/
structure Lattice.Lawful (l : Lattice) (carrier : Json → Prop) : Prop where
  null_mem : carrier .null
  total : ∀ {a b}, carrier a → carrier b → ∃ c, l.join a b = .ok c ∧ carrier c
  refl : ∀ {a}, carrier a → l.equivalent a a = true
  symm : ∀ {a b}, carrier a → carrier b → l.equivalent a b = true → l.equivalent b a = true
  trans : ∀ {a b c}, carrier a → carrier b → carrier c →
    l.equivalent a b = true → l.equivalent b c = true → l.equivalent a c = true
  congr : ∀ {a a' b b' c c'}, carrier a → carrier a' → carrier b → carrier b' →
    l.equivalent a a' = true → l.equivalent b b' = true →
    l.join a b = .ok c → l.join a' b' = .ok c' → l.equivalent c c' = true
  comm : ∀ {a b c c'}, carrier a → carrier b → l.join a b = .ok c → l.join b a = .ok c' →
    l.equivalent c c' = true
  assoc : ∀ {a b c ab bc x y}, carrier a → carrier b → carrier c → l.join a b = .ok ab →
    l.join ab c = .ok x → l.join b c = .ok bc → l.join a bc = .ok y → l.equivalent x y = true
  idem : ∀ {a b}, carrier a → l.join a a = .ok b → l.equivalent b a = true
  bottom : ∀ {a b}, carrier a → l.join .null a = .ok b → l.equivalent b a = true

/-- Joining `a` into `b` gives what is equivalent to `b`. -/
def Lattice.Below (l : Lattice) (a b : Json) : Prop := ∃ c, l.join b a = .ok c ∧ l.equivalent c b = true

namespace Lattice.Lawful

variable {l : Lattice} {carrier : Json → Prop}

/-- Equivalence on the values of the carrier. -/
def setoid (h : l.Lawful carrier) : Setoid { v // carrier v } where
  r a b := l.equivalent a.1 b.1 = true
  iseqv :=
    { refl := fun a => h.refl a.2
      symm := fun {a b} => h.symm a.2 b.2
      trans := fun {a b c} => h.trans a.2 b.2 c.2 }

def Element (h : l.Lawful carrier) : Type := Quotient h.setoid

def joinOf (h : l.Lawful carrier) (a b : { v // carrier v }) : { v // carrier v } :=
  match hj : l.join a.1 b.1 with
  | .ok c => ⟨c, by
      obtain ⟨c', hc', hm⟩ := h.total a.2 b.2
      rw [hj] at hc'
      exact Except.ok.inj hc' ▸ hm⟩
  | .error _ => a

theorem join_eq_joinOf (h : l.Lawful carrier) (a b : { v // carrier v }) :
    l.join a.1 b.1 = .ok (h.joinOf a b).1 := by
  obtain ⟨c, hc, hm⟩ := h.total a.2 b.2
  unfold joinOf
  split
  · next c' hc' => exact hc'
  · next e he =>
    rw [hc] at he
    cases he

def sup (h : l.Lawful carrier) : h.Element → h.Element → h.Element :=
  Quotient.map₂ h.joinOf fun a a' ha b b' hb =>
    h.congr a.2 a'.2 b.2 b'.2 ha hb (h.join_eq_joinOf a b) (h.join_eq_joinOf a' b')

instance (h : l.Lawful carrier) : SemilatticeSup h.Element :=
  letI : Max h.Element := ⟨h.sup⟩
  SemilatticeSup.mk'
    (fun x y => Quotient.inductionOn₂ x y fun a b =>
      Quotient.sound (h.comm a.2 b.2 (h.join_eq_joinOf a b) (h.join_eq_joinOf b a)))
    (fun x y z => Quotient.inductionOn₃ x y z fun a b c =>
      Quotient.sound (h.assoc a.2 b.2 c.2 (h.join_eq_joinOf a b) (h.join_eq_joinOf _ c)
        (h.join_eq_joinOf b c) (h.join_eq_joinOf a _)))
    (fun x => Quotient.inductionOn x fun a => Quotient.sound (h.idem a.2 (h.join_eq_joinOf a a)))

instance (h : l.Lawful carrier) : OrderBot h.Element where
  bot := Quotient.mk h.setoid ⟨.null, h.null_mem⟩
  bot_le x := Quotient.inductionOn x fun a =>
    Quotient.sound (h.bottom a.2 (h.join_eq_joinOf ⟨.null, h.null_mem⟩ a))

open Classical in
/-- The element that a value denotes. A value outside the carrier counts as null. -/
noncomputable def element (h : l.Lawful carrier) (v : Json) : h.Element :=
  if hv : carrier v then Quotient.mk h.setoid ⟨v, hv⟩ else ⊥

variable (h : l.Lawful carrier)

theorem element_eq_mk {v : Json} (hv : carrier v) : h.element v = Quotient.mk h.setoid ⟨v, hv⟩ :=
  dif_pos hv

theorem element_eq_bot {v : Json} (hv : ¬carrier v) : h.element v = ⊥ := dif_neg hv

theorem element_null : h.element .null = ⊥ := h.element_eq_mk h.null_mem

theorem element_eq_iff {a b : Json} (ha : carrier a) (hb : carrier b) :
    h.element a = h.element b ↔ l.equivalent a b = true := by
  rw [h.element_eq_mk ha, h.element_eq_mk hb]
  exact Quotient.eq (r := h.setoid)

theorem element_join {a b c : Json} (ha : carrier a) (hb : carrier b) (hj : l.join a b = .ok c) :
    carrier c ∧ h.element c = h.element a ⊔ h.element b := by
  have hc : c = (h.joinOf ⟨a, ha⟩ ⟨b, hb⟩).1 :=
    Except.ok.inj (hj.symm.trans (h.join_eq_joinOf ⟨a, ha⟩ ⟨b, hb⟩))
  subst hc
  refine ⟨Subtype.property _, ?_⟩
  rw [h.element_eq_mk ha, h.element_eq_mk hb, h.element_eq_mk (Subtype.property _)]
  rfl

theorem element_le_iff {a b c : Json} (ha : carrier a) (hb : carrier b) (hj : l.join b a = .ok c) :
    h.element a ≤ h.element b ↔ l.equivalent c b = true := by
  obtain ⟨hc, he⟩ := h.element_join hb ha hj
  rw [← h.element_eq_iff hc hb, he, sup_eq_left]

theorem below_iff {a b : Json} (ha : carrier a) (hb : carrier b) :
    l.Below a b ↔ h.element a ≤ h.element b := by
  obtain ⟨c, hj, -⟩ := h.total hb ha
  rw [h.element_le_iff ha hb hj]
  constructor
  · rintro ⟨c', hj', he⟩
    rw [hj] at hj'
    cases hj'
    exact he
  · exact fun he => ⟨c, hj, he⟩

end Lattice.Lawful

end Patchbay
