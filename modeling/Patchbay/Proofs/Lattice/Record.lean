import Patchbay.Proofs.Lattice.Builtin
import Patchbay.Proofs.Json.Text
import Patchbay.Proofs.Json.Value
import Mathlib.Order.Lattice

/-! Records join key by key. What holds of the lattices of the members, and of the rule for members that no lattice is
listed for, holds of the record. -/

namespace Patchbay

/-! ## Joining entry by entry -/

namespace Entries

variable {ε : Type} {f : String → Json → Except ε Json} {l : List (String × Json)} {s out : List (String × Json)}

/-- Puts what `f` gives for an entry under its key. -/
def putWith (f : String → Json → Except ε Json) (s : List (String × Json)) (e : String × Json) :
    Except ε (List (String × Json)) :=
  (f e.1 e.2).map fun v => insert e.1 v s

theorem ordered_of_putWith (hs : Ordered s) (h : l.foldlM (putWith f) s = .ok out) : Ordered out :=
  foldlM_keeps (P := Ordered) (fun _ _ _ _ ho hput => by
    obtain ⟨v, -, rfl⟩ := ok_of_map hput
    exact ho.insert) hs h

theorem find?_of_putWith (hl : Ordered l) (h : l.foldlM (putWith f) s = .ok out) (k : String) :
    (find? k l = none → find? k out = find? k s) ∧
      ∀ v, find? k l = some v → ∃ w, f k v = .ok w ∧ find? k out = some w := by
  induction l generalizing s with
  | nil =>
    cases h
    exact ⟨fun _ => rfl, fun v hv => absurd hv.symm (Option.some_ne_none v)⟩
  | cons e rest ih =>
    obtain ⟨hlt, hrest⟩ := List.pairwise_cons.1 hl
    rw [List.foldlM_cons] at h
    obtain ⟨t, ht, h⟩ := ok_of_bind h
    obtain ⟨w, hw, rfl⟩ := ok_of_map ht
    obtain ⟨hnone, hsome⟩ := ih hrest h
    simp only [find?]
    by_cases hk : k = e.1
    · subst hk
      rw [if_pos rfl, hnone (find?_eq_none_of_lt hlt), find?_insert_self]
      refine ⟨fun hn => absurd hn (Option.some_ne_none e.2), fun v hv => ?_⟩
      cases hv
      exact ⟨w, hw, rfl⟩
    · rw [if_neg hk]
      exact ⟨fun hn => (hnone hn).trans (find?_insert_of_ne hk _ _), hsome⟩

theorem exists_putWith (h : ∀ e ∈ l, ∃ w, f e.1 e.2 = .ok w) : ∃ out, l.foldlM (putWith f) s = .ok out := by
  refine foldlM_eq_ok fun s e he => ?_
  obtain ⟨w, hw⟩ := h e he
  refine ⟨insert e.1 w s, ?_⟩
  rw [putWith, hw]
  rfl

theorem ext_find? {l r : List (String × Json)} (hl : Ordered l) (hr : Ordered r) (h : ∀ k, find? k l = find? k r) :
    l = r :=
  congrArg Dict.entries (Dict.ext_get? (d := ⟨l, hl⟩) (e := ⟨r, hr⟩) h)

end Entries

namespace Lattice

open Entries

/-! ## Members -/

/-- The rule for members that no lattice is listed for. -/
def unlisted : Lattice where
  name := ""
  bottom := .null
  join a b := .ok (joinUnlisted a b)
  equivalent a b := a == b

/-- How the values under a key join. -/
def member (fields : Dict Lattice) (k : String) : Lattice := (fields.get? k).getD unlisted

variable {fields : Dict Lattice} {name : String} {m n out : List (String × Json)} {a b : Json}

theorem joinMember_eq (fields : Dict Lattice) (k : String) (a b : Json) :
    joinMember fields k a b = (member fields k).join a b := by
  unfold joinMember member
  cases fields.get? k <;> rfl

theorem equivalentMember_eq (fields : Dict Lattice) (k : String) (a b : Json) :
    equivalentMember fields k a b = (member fields k).equivalent a b := by
  unfold equivalentMember member
  cases fields.get? k <;> rfl

/-- The join of what two objects have under a key. -/
def joinAt (l : Lattice) : Option Json → Option Json → Except LatticeError (Option Json)
  | some a, some b => (l.join a b).map some
  | some a, none => .ok (some a)
  | none, b => .ok b

/-- What comes in under a key, joined with what is there. -/
def joinWith (fields : Dict Lattice) (m : List (String × Json)) (k : String) (v : Json) : Except LatticeError Json :=
  match find? k m with
  | some a => (member fields k).join a v
  | none => .ok v

theorem joinMembers_eq_foldlM : joinMembers fields m n = n.foldlM (putWith (joinWith fields m)) m := by
  unfold joinMembers
  congr 1
  funext s ⟨k, v⟩
  simp only [putWith, joinWith, joinMember_eq]
  cases find? k m with
  | none => rfl
  | some a => cases (member fields k).join a v <;> rfl

theorem joinAt_of_find?_eq_none {k : String} (h : find? k n = none) :
    joinAt (member fields k) (find? k m) (find? k n) = .ok (find? k m) := by
  rw [h]
  cases find? k m <;> rfl

theorem joinAt_of_joinWith {k : String} {v w : Json} (h : find? k n = some v) (hw : joinWith fields m k v = .ok w) :
    joinAt (member fields k) (find? k m) (find? k n) = .ok (some w) := by
  unfold joinWith at hw
  rw [h]
  cases hm : find? k m with
  | none =>
    rw [hm] at hw
    cases hw
    rfl
  | some a =>
    rw [hm] at hw
    simp only [joinAt, hw]
    rfl

theorem exists_joinWith {k : String} {v : Json} {x : Option Json} (h : find? k n = some v)
    (hx : joinAt (member fields k) (find? k m) (find? k n) = .ok x) : ∃ w, joinWith fields m k v = .ok w := by
  unfold joinWith
  rw [h] at hx
  cases hm : find? k m with
  | none => exact ⟨v, rfl⟩
  | some a =>
    rw [hm] at hx
    obtain ⟨w, hw, -⟩ := ok_of_map hx
    exact ⟨w, hw⟩

theorem exists_joinMembers (hn : Ordered n)
    (h : ∀ k, ∃ x, joinAt (member fields k) (find? k m) (find? k n) = .ok x) :
    ∃ out, joinMembers fields m n = .ok out := by
  rw [joinMembers_eq_foldlM]
  refine exists_putWith fun e he => ?_
  obtain ⟨x, hx⟩ := h e.1
  exact exists_joinWith ((find?_eq_some_iff hn).2 he) hx

theorem joinAt_of_joinMembers (hn : Ordered n) (h : joinMembers fields m n = .ok out) (k : String) :
    joinAt (member fields k) (find? k m) (find? k n) = .ok (find? k out) := by
  rw [joinMembers_eq_foldlM] at h
  obtain ⟨hnone, hsome⟩ := find?_of_putWith hn h k
  cases hk : find? k n with
  | none => rw [hnone hk, ← hk, joinAt_of_find?_eq_none hk]
  | some v =>
    obtain ⟨w, hw, hout⟩ := hsome v hk
    rw [hout, ← hk, joinAt_of_joinWith hk hw]

/-- The join of two objects is the object that has under each key the join of what they have there. -/
theorem joinMembers_eq_ok_iff (hm : Ordered m) (hn : Ordered n) :
    joinMembers fields m n = .ok out ↔
      Ordered out ∧ ∀ k, joinAt (member fields k) (find? k m) (find? k n) = .ok (find? k out) := by
  constructor
  · intro h
    exact ⟨ordered_of_putWith hm (joinMembers_eq_foldlM ▸ h), joinAt_of_joinMembers hn h⟩
  · rintro ⟨ho, h⟩
    obtain ⟨out', h'⟩ := exists_joinMembers hn fun k => ⟨_, h k⟩
    have ho' : Ordered out' := ordered_of_putWith hm (joinMembers_eq_foldlM ▸ h')
    rw [h', ext_find? ho ho' fun k => Except.ok.inj ((h k).symm.trans (joinAt_of_joinMembers hn h' k))]

theorem record_join_obj :
    (record name fields).join (.obj m) (.obj n) = .ok a ↔ ∃ out, joinMembers fields m n = .ok out ∧ a = .obj out := by
  constructor
  · intro h
    obtain ⟨out, hout, ha⟩ := ok_of_map h
    exact ⟨out, hout, ha.symm⟩
  · rintro ⟨out, hout, rfl⟩
    show (joinMembers fields m n).map Json.obj = _
    rw [hout]
    rfl

/-! ## Equivalence -/

theorem all_zip_iff {p : String → Json → Json → Bool} (hm : Ordered m) (hk : m.map (·.1) = n.map (·.1)) :
    ((m.zip n).all fun e => p e.1.1 e.1.2 e.2.2) = true ↔
      ∀ k, Option.Rel (fun a b => p k a b = true) (find? k m) (find? k n) := by
  induction m generalizing n with
  | nil =>
    cases n with
    | nil => exact iff_of_true rfl fun _ => .none
    | cons e n => cases hk
  | cons d m ih =>
    cases n with
    | nil => cases hk
    | cons e n =>
      obtain ⟨hlt, hm⟩ := List.pairwise_cons.1 hm
      obtain ⟨hde, hk⟩ := List.cons.inj hk
      have hnone : find? d.1 m = none := find?_eq_none_of_lt hlt
      have hnone' : find? d.1 n = none := find?_eq_none_of_lt (hk ▸ hlt)
      rw [List.zip_cons_cons, List.all_cons, Bool.and_eq_true, ih hm hk]
      simp only [find?, ← hde]
      constructor
      · rintro ⟨hhead, htail⟩ k
        by_cases hkd : k = d.1
        · rw [if_pos hkd, if_pos hkd, hkd]
          exact .some hhead
        · rw [if_neg hkd, if_neg hkd]
          exact htail k
      · intro h
        refine ⟨?_, fun k => ?_⟩
        · have hd := h d.1
          rw [if_pos rfl, if_pos rfl] at hd
          cases hd with
          | some hp => exact hp
        · by_cases hkd : k = d.1
          · rw [hkd, hnone, hnone']
            exact .none
          · have hk := h k
            rwa [if_neg hkd, if_neg hkd] at hk

theorem keys_eq_of_rel {r : String → Json → Json → Prop} (hm : Ordered m) (hn : Ordered n)
    (h : ∀ k, Option.Rel (r k) (find? k m) (find? k n)) : m.map (·.1) = n.map (·.1) := by
  refine Dict.keys_eq_iff (d := ⟨m, hm⟩) (e := ⟨n, hn⟩) |>.2 fun k => ?_
  show (find? k m).isSome = (find? k n).isSome
  have hk := h k
  generalize find? k m = x at hk
  generalize find? k n = y at hk
  cases hk <;> rfl

theorem record_equivalent_obj (hm : Ordered m) (hn : Ordered n) :
    (record name fields).equivalent (.obj m) (.obj n) = true ↔
      ∀ k, Option.Rel (fun a b => (member fields k).equivalent a b = true) (find? k m) (find? k n) := by
  simp only [record, Bool.and_eq_true, beq_iff_eq, equivalentMember_eq]
  constructor
  · rintro ⟨hk, hall⟩
    exact (all_zip_iff (p := fun k a b => (member fields k).equivalent a b) hm hk).1 hall
  · intro h
    have hk := keys_eq_of_rel hm hn h
    exact ⟨hk, (all_zip_iff (p := fun k a b => (member fields k).equivalent a b) hm hk).2 h⟩

end Lattice

end Patchbay
