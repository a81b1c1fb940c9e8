import Patchbay.Naming
import Mathlib.Data.List.Basic

/-! Identities that tell apart: what follows from equal identities once a naming condenses different parts
differently. -/

namespace Patchbay

namespace Naming

/-- Different parts are condensed to different digests. -/
def Faithful (n : Naming) : Prop := Function.Injective n.digest

theorem Faithful.parts_eq {n : Naming} (hn : n.Faithful) {kind : String} {ps qs : List String}
    (h : n.identify kind ps = n.identify kind qs) : ps = qs :=
  hn ((String.append_right_inj kind).1 h)

theorem Faithful.gadget_eq {n : Naming} (hn : n.Faithful) {o o' : Occupant}
    (h : n.gadgetNode o = n.gadgetNode o') : o.id = o'.id := by
  have hparts := hn.parts_eq h
  simp only [List.cons.injEq] at hparts
  exact hparts.2.1

/-- No gadget is taken for a shim. -/
theorem Faithful.gadgetNode_ne_shimNode {n : Naming} (hn : n.Faithful) (o : Occupant) (wire : WireId)
    (aspect : AspectId) (params : Json) : n.gadgetNode o ≠ n.shimNode wire aspect params := by
  intro h
  have hparts := hn.parts_eq h
  simp only [List.cons.injEq] at hparts
  exact absurd hparts.1 (by decide)

theorem undotted_identify (n : Naming) {kind : String} (hk : '.' ∉ kind.toList) (parts : List String) :
    '.' ∉ (n.identify kind parts).toList := by
  rw [identify, String.toList_append, List.mem_append]
  exact not_or.2 ⟨hk, n.undotted parts⟩

/-! ## A faithful naming -/

/-- A character as it is spelled: never a point, and never a stroke alone. -/
def escape (c : Char) : List Char :=
  if c = '.' then ['/', 'p'] else if c = '/' then ['/', '/'] else [c]

def spell (part : String) : List Char := part.toList.flatMap escape ++ ['/', ';']

theorem point_notMem_escape (c : Char) : '.' ∉ escape c := by
  unfold escape
  split
  · decide
  · split
    · decide
    · next hc _ => simpa [eq_comm] using hc

theorem point_notMem_spell (part : String) : '.' ∉ spell part := by
  intro h
  rcases List.mem_append.1 h with h | h
  · obtain ⟨c, -, hc⟩ := List.mem_flatMap.1 h
    exact point_notMem_escape c hc
  · revert h
    decide

/-- The naming that spells all parts out. -/
def spelled : Naming where
  digest parts := .ofList (parts.flatMap spell)
  undotted parts h := by
    rw [String.toList_ofList] at h
    obtain ⟨part, -, hp⟩ := List.mem_flatMap.1 h
    exact point_notMem_spell part hp

theorem escape_append_ne (c : Char) (as bs : List Char) : escape c ++ as ≠ '/' :: ';' :: bs := by
  unfold escape
  split
  · simp
  · split <;> simp_all

/-- No character is spelled as the beginning of another. -/
theorem escape_append_inj {c d : Char} {as bs : List Char} (h : escape c ++ as = escape d ++ bs) :
    c = d ∧ as = bs := by
  simp only [escape] at h
  by_cases hc : c = '.' <;> by_cases hd : d = '.' <;> by_cases hc' : c = '/' <;> by_cases hd' : d = '/' <;>
    simp_all [eq_comm]

theorem spell_append_inj {xs ys as bs : List Char}
    (h : xs.flatMap escape ++ '/' :: ';' :: as = ys.flatMap escape ++ '/' :: ';' :: bs) :
    xs = ys ∧ as = bs := by
  induction xs generalizing ys with
  | nil =>
    cases ys with
    | nil => simpa using h
    | cons y ys =>
      rw [List.flatMap_cons, List.append_assoc] at h
      exact absurd h.symm (escape_append_ne y _ _)
  | cons x xs ih =>
    cases ys with
    | nil =>
      rw [List.flatMap_cons, List.append_assoc] at h
      exact absurd h (escape_append_ne x _ _)
    | cons y ys =>
      rw [List.flatMap_cons, List.flatMap_cons, List.append_assoc, List.append_assoc] at h
      obtain ⟨rfl, htail⟩ := escape_append_inj h
      obtain ⟨rfl, hrest⟩ := ih htail
      exact ⟨rfl, hrest⟩

theorem faithful_spelled : spelled.Faithful := by
  intro ps qs h
  replace h : ps.flatMap spell = qs.flatMap spell := String.ofList_injective h
  induction ps generalizing qs with
  | nil =>
    cases qs with
    | nil => rfl
    | cons q qs => simp [spell] at h
  | cons p ps ih =>
    cases qs with
    | nil => simp [spell] at h
    | cons q qs =>
      simp only [List.flatMap_cons, spell, List.append_assoc, List.cons_append, List.nil_append] at h
      obtain ⟨hp, hrest⟩ := spell_append_inj h
      rw [String.toList_injective hp, ih hrest]

end Naming

theorem append_cons_inj {α : Type} {c : α} {xs ys as bs : List α} (hx : c ∉ xs) (hy : c ∉ ys)
    (h : xs ++ c :: as = ys ++ c :: bs) : xs = ys ∧ as = bs := by
  induction xs generalizing ys with
  | nil =>
    cases ys with
    | nil => exact ⟨rfl, (List.cons.inj h).2⟩
    | cons y ys =>
      have hc : c = y := (List.cons.inj h).1
      exact absurd (hc ▸ List.mem_cons_self) hy
  | cons x xs ih =>
    cases ys with
    | nil =>
      have hc : x = c := (List.cons.inj h).1
      exact absurd (hc ▸ List.mem_cons_self) hx
    | cons y ys =>
      obtain ⟨hxy, htail⟩ := List.cons.inj h
      obtain ⟨hl, hr⟩ := ih (List.not_mem_of_not_mem_cons hx) (List.not_mem_of_not_mem_cons hy) htail
      exact ⟨by rw [hxy, hl], hr⟩

theorem append_cons_inj_right {α : Type} {c : α} {xs ys as bs : List α} (ha : c ∉ as) (hb : c ∉ bs)
    (h : xs ++ c :: as = ys ++ c :: bs) : xs = ys ∧ as = bs := by
  have hreverse : as.reverse ++ c :: xs.reverse = bs.reverse ++ c :: ys.reverse := by
    simpa using congrArg List.reverse h
  obtain ⟨has, hxs⟩ := append_cons_inj (List.mem_reverse.not.2 ha) (List.mem_reverse.not.2 hb) hreverse
  exact ⟨List.reverse_injective hxs, List.reverse_injective has⟩

/-- The identity of a contact tells its node and its pin, as long as nodes have no point in their identities. -/
theorem pinContact_inj {m n : NodeId} {p q : PinName} (hm : '.' ∉ m.toList) (hn : '.' ∉ n.toList)
    (h : pinContact m p = pinContact n q) : m = n ∧ p = q := by
  have hchars : m.toList ++ '.' :: p.toList = n.toList ++ '.' :: q.toList := by
    have hl := congrArg String.toList h
    simpa [pinContact, String.toList_append] using hl
  obtain ⟨hnode, hpin⟩ := append_cons_inj hm hn hchars
  exact ⟨String.toList_injective hnode, String.toList_injective hpin⟩

theorem pinContact_right_inj {n : NodeId} {p q : PinName} (h : pinContact n p = pinContact n q) : p = q :=
  (String.append_right_inj _).1 h

end Patchbay
