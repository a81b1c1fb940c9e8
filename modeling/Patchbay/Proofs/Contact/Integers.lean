import Patchbay.Proofs.Contact.Typed
import Patchbay.Proofs.Number.Rounding

/-! Contacts for the greatest or the least of the integers that are written to them. Integers are compared as doubles,
so that of several integers that become one double the first one stays. Integers of 53 bits are told apart. -/

namespace Patchbay

open Double

namespace LatticeSpec

/-- The lattice keeps what comes last in an order of the integers. -/
inductive Orders : LatticeSpec → (Int → Int → Prop) → Prop
  | max : Orders .max (· ≤ ·)
  | min : Orders .min (· ≥ ·)

namespace Orders

variable {s : LatticeSpec} {le : Int → Int → Prop} {i j k : Int}

theorem refl (h : s.Orders le) (i : Int) : le i i := by
  cases h <;> exact Int.le_refl i

theorem total (h : s.Orders le) (i j : Int) : le i j ∨ le j i := by
  cases h
  · exact Int.le_total i j
  · exact Int.le_total j i

theorem trans (h : s.Orders le) (hij : le i j) (hjk : le j k) : le i k := by
  cases h
  · exact Int.le_trans hij hjk
  · exact Int.le_trans hjk hij

theorem antisymm (h : s.Orders le) (hij : le i j) (hji : le j i) : i = j := by
  cases h
  · exact Int.le_antisymm hij hji
  · exact Int.le_antisymm hji hij

theorem rounded_mono (h : s.Orders le) (hij : le i j) : le (rounded i) (rounded j) := by
  cases h
  · exact Double.rounded_mono hij
  · exact Double.rounded_mono hij

end Orders

/-- An integer that a number of a document can be. -/
def InWord (i : Int) : Prop := minInt64 ≤ i ∧ i ≤ maxNat64

instance (i : Int) : Decidable (InWord i) := inferInstanceAs (Decidable (_ ∧ _))

theorem InWord.natAbs_lt {i : Int} (h : InWord i) : i.natAbs < 2 ^ 64 := by
  simp only [InWord, minInt64, maxNat64] at h
  omega

variable {s : LatticeSpec} {le : Int → Int → Prop} {i j : Int}

theorem InWord.exists_toDouble? {i : Int} (h : InWord i) :
    ∃ x, (Number.int i).toDouble? = some x ∧ ofInt? i = some x := by
  obtain ⟨x, hx⟩ := exists_ofInt? h.natAbs_lt
  exact ⟨x, hx, hx⟩

/-- Two integers are equivalent where they become one double. -/
theorem Orders.equivalent_iff (h : s.Orders le) (hi : InWord i) (hj : InWord j) :
    s.toLattice.equivalent (.int i) (.int j) = true ↔ rounded i = rounded j := by
  obtain ⟨x, hx, hix⟩ := hi.exists_toDouble?
  obtain ⟨y, hy, hjy⟩ := hj.exists_toDouble?
  have hsame : Lattice.numbersEquivalent (.int i) (.int j) = true ↔ rounded i = rounded j := by
    rw [Json.int, Json.int, Lattice.numbersEquivalent_num hx hy, same, beq_iff_eq]
    exact units_ofInt?_eq_iff hix hjy
  cases h <;> exact hsame

/-- The current integer stays unless the one that comes in is further along as a double. -/
theorem Orders.join_eq (h : s.Orders le) (hi : InWord i) (hj : InWord j) :
    (le (rounded j) (rounded i) → s.toLattice.join (.int i) (.int j) = .ok (.int i)) ∧
      (¬le (rounded j) (rounded i) → s.toLattice.join (.int i) (.int j) = .ok (.int j)) := by
  obtain ⟨x, hx, hix⟩ := hi.exists_toDouble?
  obtain ⟨y, hy, hjy⟩ := hj.exists_toDouble?
  cases h with
  | max =>
    have hless : x.less y = true ↔ rounded i < rounded j := decide_eq_true_iff.trans (units_ofInt?_lt_iff hix hjy)
    rw [toLattice, Lattice.max, Json.int, Json.int, Lattice.numeric_join_num hx hy]
    exact ⟨fun hle => by rw [if_neg fun h => Int.not_lt.2 hle (hless.1 h)],
      fun hle => by rw [if_pos (hless.2 (Int.not_le.1 hle))]⟩
  | min =>
    have hless : y.less x = true ↔ rounded j < rounded i := decide_eq_true_iff.trans (units_ofInt?_lt_iff hjy hix)
    rw [toLattice, Lattice.min, Json.int, Json.int, Lattice.numeric_join_num hx hy]
    exact ⟨fun hle => by rw [if_neg fun h => Int.not_lt.2 hle (hless.1 h)],
      fun hle => by rw [if_pos (hless.2 (Int.not_le.1 hle))]⟩

theorem Orders.join_null (h : s.Orders le) (hj : InWord j) : s.toLattice.join .null (.int j) = .ok (.int j) := by
  obtain ⟨y, hy, -⟩ := hj.exists_toDouble?
  cases h
  all_goals exact Lattice.numeric_join_null hy

theorem Orders.equivalent_null (h : s.Orders le) (j : Int) : s.toLattice.equivalent (.int j) .null = false := by
  cases h <;> rfl

/-- The first of the integers that are last in the order as doubles. -/
def FirstOfLast (le : Int → Int → Prop) (is : List Int) (k : Int) : Prop :=
  ∃ before after, is = before ++ k :: after ∧ (∀ j ∈ before, ¬le (rounded k) (rounded j)) ∧
    ∀ j ∈ after, le (rounded j) (rounded k)

theorem FirstOfLast.mem {is : List Int} {k : Int} (h : FirstOfLast le is k) : k ∈ is := by
  obtain ⟨before, after, rfl, -⟩ := h
  exact List.mem_append_right before List.mem_cons_self

theorem FirstOfLast.le_rounded (ho : s.Orders le) {is : List Int} {k : Int} (h : FirstOfLast le is k) :
    ∀ j ∈ is, le (rounded j) (rounded k) := by
  obtain ⟨before, after, rfl, hbefore, hafter⟩ := h
  intro j hj
  rcases List.mem_append.1 hj with hj | hj
  · exact (ho.total _ _).resolve_right (hbefore j hj)
  · rcases List.mem_cons.1 hj with rfl | hj
    · exact ho.refl _
    · exact hafter j hj

/-- One more integer takes the place of the first if it is further along. -/
theorem FirstOfLast.concat (ho : s.Orders le) {is : List Int} {k j : Int} (h : FirstOfLast le is k) :
    (le (rounded j) (rounded k) → FirstOfLast le (is ++ [j]) k) ∧
      (¬le (rounded j) (rounded k) → FirstOfLast le (is ++ [j]) j) := by
  constructor
  · intro hjk
    obtain ⟨before, after, rfl, hbefore, hafter⟩ := h
    refine ⟨before, after ++ [j], by simp, hbefore, fun x hx => ?_⟩
    rcases List.mem_append.1 hx with hx | hx
    · exact hafter x hx
    · exact List.mem_singleton.1 hx ▸ hjk
  · intro hjk
    exact ⟨is, [], rfl, fun x hx hjx => hjk (ho.trans hjx (h.le_rounded ho x hx)), List.forall_mem_nil _⟩

end LatticeSpec

namespace ContactStore

open LatticeSpec

variable {st : ContactStore} {id : ContactId} {s : LatticeSpec} {le : Int → Int → Prop} {i j : Int} {is : List Int}

/-- Integers have been written to the contact, which held null before. -/
def HoldsFirst (st : ContactStore) (id : ContactId) (s : LatticeSpec) (le : Int → Int → Prop) (is : List Int) : Prop :=
  (is = [] ∧ st.Holds id s .null) ∨ ∃ k, st.Holds id s (.int k) ∧ FirstOfLast le is k

theorem Holds.write_int (ho : s.Orders le) (h : st.Holds id s (.int i)) (hi : InWord i) (hj : InWord j) :
    (le (rounded j) (rounded i) → (st.write (id, .int j)).Holds id s (.int i)) ∧
      (¬le (rounded j) (rounded i) → (st.write (id, .int j)).Holds id s (.int j)) := by
  obtain ⟨hstay, hmove⟩ := ho.join_eq hi hj
  obtain ⟨b, hb, htakes⟩ := h.write_self (.int j)
  constructor
  · intro hle
    cases htakes with
    | raised hjoin =>
      cases (hstay hle).symm.trans hjoin
      exact hb
    | same => exact hb
    | refused => exact hb
  · intro hle
    cases htakes with
    | raised hjoin =>
      cases (hmove hle).symm.trans hjoin
      exact hb
    | same hjoin he =>
      cases (hmove hle).symm.trans hjoin
      rw [ho.equivalent_iff hj hi] at he
      exact absurd (he ▸ ho.refl _) hle
    | refused hnone => exact absurd ⟨_, hmove hle⟩ hnone

theorem Holds.write_int_null (ho : s.Orders le) (h : st.Holds id s .null) (hj : InWord j) :
    (st.write (id, .int j)).Holds id s (.int j) := by
  obtain ⟨b, hb, htakes⟩ := h.write_self (.int j)
  cases htakes with
  | raised hjoin =>
    cases (ho.join_null hj).symm.trans hjoin
    exact hb
  | same hjoin he =>
    cases (ho.join_null hj).symm.trans hjoin
    rw [ho.equivalent_null] at he
    cases he
  | refused hnone => exact absurd ⟨_, ho.join_null hj⟩ hnone

theorem HoldsFirst.write (ho : s.Orders le) (h : st.HoldsFirst id s le is) (his : ∀ i ∈ is, InWord i) (hj : InWord j) :
    (st.write (id, .int j)).HoldsFirst id s le (is ++ [j]) := by
  rcases h with ⟨rfl, hnull⟩ | ⟨k, hk, hfirst⟩
  · exact .inr ⟨j, hnull.write_int_null ho hj, [], [], rfl, List.forall_mem_nil _, List.forall_mem_nil _⟩
  · obtain ⟨hstay, hmove⟩ := hk.write_int ho (his k hfirst.mem) hj
    obtain ⟨hold, hnew⟩ := hfirst.concat ho (j := j)
    by_cases hle : le (rounded j) (rounded k)
    · exact .inr ⟨k, hstay hle, hold hle⟩
    · exact .inr ⟨j, hmove hle, hnew hle⟩

/-- Whatever is written to other contacts in between. -/
theorem HoldsFirst.writeAll (ho : s.Orders le) (h : st.HoldsFirst id s le is) (his : ∀ i ∈ is, InWord i)
    {ps : List (ContactId × Json)} {js : List Int} (hsent : sentTo id ps = js.map Json.int) (hjs : ∀ j ∈ js, InWord j) :
    (st.writeAll ps).HoldsFirst id s le (is ++ js) := by
  induction ps generalizing st is js with
  | nil =>
    obtain rfl := List.map_eq_nil_iff.1 hsent.symm
    rwa [List.append_nil]
  | cons p rest ih =>
    by_cases hid : p.1 = id
    · have hcons : sentTo id (p :: rest) = p.2 :: sentTo id rest := by simp [sentTo, hid]
      rw [hcons] at hsent
      obtain ⟨j, js, rfl, hp, hrest⟩ := List.map_eq_cons_iff.1 hsent.symm
      obtain ⟨hj, hjs⟩ := List.forall_mem_cons.1 hjs
      have hwrite : (st.write p).HoldsFirst id s le (is ++ [j]) := by
        obtain ⟨id', v⟩ := p
        cases hid
        cases hp
        exact h.write ho his hj
      have hall : ∀ i ∈ is ++ [j], InWord i := List.forall_mem_append.2 ⟨his, List.forall_mem_singleton.2 hj⟩
      rw [List.append_cons]
      exact ih hwrite hall hrest.symm hjs
    · have hcons : sentTo id (p :: rest) = sentTo id rest := by simp [sentTo, hid]
      rw [hcons] at hsent
      have hwrite : (st.write p).HoldsFirst id s le is := by
        rcases h with ⟨hnil, hnull⟩ | ⟨k, hk, hfirst⟩
        · exact .inl ⟨hnil, hnull.write_of_ne hid⟩
        · exact .inr ⟨k, hk.write_of_ne hid, hfirst⟩
      exact ih hwrite his hsent hjs

/-- What the contact holds tells which integers it takes for news. -/
theorem Holds.update_int (ho : s.Orders le) (h : st.Holds id s (.int i)) (hi : InWord i) (hj : InWord j) :
    ∃ st' changed, st.update id (.int j) = .ok (st', changed) ∧
      (changed = true ↔ ¬le (rounded j) (rounded i)) := by
  obtain ⟨hstay, hmove⟩ := ho.join_eq hi hj
  have hjoin : ∃ b, s.toLattice.join (.int i) (.int j) = .ok b :=
    (em (le (rounded j) (rounded i))).elim (fun hle => ⟨_, hstay hle⟩) fun hle => ⟨_, hmove hle⟩
  obtain ⟨⟨st', changed⟩, hu⟩ := h.update_ok_iff.2 hjoin
  refine ⟨st', changed, hu, ?_⟩
  obtain ⟨c, hc, hl, hv⟩ := h
  obtain ⟨c', joined, hc', hj', hcases⟩ := update_cases hu
  cases hc.symm.trans hc'
  rw [hl, hv] at hj' hcases
  by_cases hle : le (rounded j) (rounded i)
  · cases (hstay hle).symm.trans hj'
    rcases hcases with ⟨-, rfl, -⟩ | ⟨hne, -⟩
    · exact iff_of_false Bool.false_ne_true (not_not.2 hle)
    · rw [(ho.equivalent_iff hi hi).2 rfl] at hne
      cases hne
  · cases (hmove hle).symm.trans hj'
    rcases hcases with ⟨he, -⟩ | ⟨-, rfl, -⟩
    · rw [ho.equivalent_iff hj hi] at he
      exact absurd (he ▸ ho.refl _) hle
    · exact iff_of_true rfl hle

/-- A contact for the greatest or the least of some integers, after they have been written to it and whatever has been
written to others. It holds the first of those that are greatest (or least) as doubles, which is no more than 2048 away
from the greatest itself, and takes an integer for news just if that is further along as a double. Where no other
integer becomes the same double as the greatest, as among integers of 53 bits, it holds the greatest. -/
theorem integer_contact (ho : s.Orders le) (h : st.Holds id s .null) (hne : is ≠ [])
    {ps : List (ContactId × Json)} (hsent : sentTo id ps = is.map Json.int) (his : ∀ i ∈ is, InWord i) :
    (∃ k, (st.writeAll ps).value id = .ok (.int k) ∧ FirstOfLast le is k ∧
      (∀ m ∈ is, (∀ i ∈ is, le i m) → rounded k = rounded m ∧ (k - m).natAbs ≤ 2048 ∧
        ((∀ i ∈ is, rounded i = rounded m → i = m) → k = m) ∧ ((∀ i ∈ is, i.natAbs ≤ 2 ^ 53) → k = m)) ∧
      ∀ j, InWord j → ∃ st' changed, (st.writeAll ps).update id (.int j) = .ok (st', changed) ∧
        (changed = true ↔ ¬le (rounded j) (rounded k))) ∧
    ∀ i j, InWord i → InWord j →
      (s.toLattice.equivalent (.int i) (.int j) = true ↔ rounded i = rounded j) ∧
        (s.toLattice.equivalent (.int i) (.int j) = true → (i - j).natAbs ≤ 2048) ∧
        (i.natAbs ≤ 2 ^ 53 → j.natAbs ≤ 2 ^ 53 → (s.toLattice.equivalent (.int i) (.int j) = true ↔ i = j)) := by
  constructor
  · have hend : (st.writeAll ps).HoldsFirst id s le ([] ++ is) :=
      HoldsFirst.writeAll ho (.inl ⟨rfl, h⟩) (List.forall_mem_nil _) hsent his
    rw [List.nil_append] at hend
    obtain ⟨k, hk, hfirst⟩ := hend.resolve_left fun hnil => hne hnil.1
    refine ⟨k, hk.value, hfirst, fun m hm hmost => ?_, fun j hj => hk.update_int ho (his k hfirst.mem) hj⟩
    have heq : rounded k = rounded m :=
      ho.antisymm (ho.rounded_mono (hmost k hfirst.mem)) (hfirst.le_rounded ho m hm)
    refine ⟨heq, ?_, fun hone => hone k hfirst.mem heq, fun hsmall => ?_⟩
    · exact natAbs_sub_le_of_rounded_eq (his k hfirst.mem).natAbs_lt (his m hm).natAbs_lt heq
    · rwa [rounded_of_natAbs_le (hsmall k hfirst.mem), rounded_of_natAbs_le (hsmall m hm)] at heq
  · intro i j hi hj
    have heq := ho.equivalent_iff hi hj
    refine ⟨heq, fun he => natAbs_sub_le_of_rounded_eq hi.natAbs_lt hj.natAbs_lt (heq.1 he), fun hsi hsj => ?_⟩
    rw [heq, rounded_of_natAbs_le hsi, rounded_of_natAbs_le hsj]

/-- Two to the 53rd and the next but one, which are doubles of their own. -/
theorem integer_contact_even :
    Orders .max (· ≤ ·) ∧ ∃ st, empty.register "c" Lattice.max none = .ok st ∧
      (st.writeAll [("c", .int 9007199254740994), ("c", .int 9007199254740992)]).value "c" =
        .ok (.int 9007199254740994) := by
  obtain ⟨st, hst⟩ : ∃ st, empty.register "c" Lattice.max none = .ok st := ⟨_, rfl⟩
  have hnull : st.Holds "c" .max .null := by
    cases hst
    exact ⟨_, rfl, rfl, rfl⟩
  have his : ∀ i ∈ [(9007199254740994 : Int), 9007199254740992], InWord i := by
    simp [InWord, minInt64, maxNat64]
  have hsent : sentTo "c" [("c", .int 9007199254740994), ("c", .int 9007199254740992)] =
      [9007199254740994, 9007199254740992].map Json.int := rfl
  obtain ⟨⟨k, hk, -, hmost, -⟩, -⟩ := integer_contact .max hnull (List.cons_ne_nil _ _) hsent his
  obtain ⟨-, -, hone, -⟩ := hmost 9007199254740994 List.mem_cons_self (by decide)
  have hsole : ∀ i ∈ [(9007199254740994 : Int), 9007199254740992], rounded i = rounded 9007199254740994 →
      i = 9007199254740994 := by decide
  rw [hone hsole] at hk
  exact ⟨.max, st, hst, hk⟩

/-- The integer after two to the 53rd becomes the same double. It is larger, and goes unnoticed. -/
theorem integer_contact_loses_odd :
    ∃ st st', empty.register "c" Lattice.max none = .ok st ∧
      (st.writeAll [("c", .int 9007199254740992)]).update "c" (.int 9007199254740993) = .ok (st', false) ∧
      (st.writeAll [("c", .int 9007199254740992), ("c", .int 9007199254740993)]).value "c" =
        .ok (.int 9007199254740992) ∧
      Lattice.max.equivalent (.int 9007199254740993) (.int 9007199254740992) = true := by
  obtain ⟨st, hst⟩ : ∃ st, empty.register "c" Lattice.max none = .ok st := ⟨_, rfl⟩
  have hnull : st.Holds "c" .max .null := by
    cases hst
    exact ⟨_, rfl, rfl, rfl⟩
  have heven : InWord 9007199254740992 := by decide
  have hodd : InWord 9007199254740993 := by decide
  have hrounded : rounded 9007199254740993 = rounded 9007199254740992 := by decide
  have hfirst : (st.write ("c", .int 9007199254740992)).Holds "c" .max (.int 9007199254740992) :=
    hnull.write_int_null .max heven
  obtain ⟨st', changed, hu, hchanged⟩ := hfirst.update_int .max heven hodd
  have hfalse : changed = false := Bool.eq_false_iff.2 fun ht => hchanged.1 ht hrounded.le
  refine ⟨st, st', hst, hfalse ▸ hu, ((hfirst.write_int .max heven hodd).1 hrounded.le).value, ?_⟩
  exact (Orders.max.equivalent_iff hodd heven).2 hrounded

end ContactStore

end Patchbay
