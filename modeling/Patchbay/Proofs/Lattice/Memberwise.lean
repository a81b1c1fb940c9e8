import Patchbay.Proofs.Lattice.Record
import Mathlib.Data.String.Basic
import Mathlib.Order.WithBot

/-! Laws of records. Whatever the members that no lattice is listed for hold, values join, in either order alike. Where
no two of them are the same but for the signs of their zeros, records are lawful when their listed members are. -/

namespace Patchbay.Lattice

open Entries

/-! ## Laws of one member -/

/-- The laws of a join-semilattice on the values of a carrier, but for associativity. -/
structure Commutative (l : Lattice) (carrier : Json → Prop) : Prop where
  total : ∀ {a b}, carrier a → carrier b → ∃ c, l.join a b = .ok c ∧ carrier c
  refl : ∀ {a}, carrier a → l.equivalent a a = true
  symm : ∀ {a b}, carrier a → carrier b → l.equivalent a b = true → l.equivalent b a = true
  trans : ∀ {a b c}, carrier a → carrier b → carrier c →
    l.equivalent a b = true → l.equivalent b c = true → l.equivalent a c = true
  comm : ∀ {a b c c'}, carrier a → carrier b → l.join a b = .ok c → l.join b a = .ok c' →
    l.equivalent c c' = true
  idem : ∀ {a b}, carrier a → l.join a a = .ok b → l.equivalent b a = true

/-- The values of the carrier are told apart by their ranks, and a join adds ranks up. -/
structure Graded {α : Type} [SemilatticeSup α] (l : Lattice) (carrier : Json → Prop) (rank : Json → α) : Prop where
  equivalent_iff : ∀ {a b}, carrier a → carrier b → (l.equivalent a b = true ↔ rank a = rank b)
  join : ∀ {a b}, carrier a → carrier b → ∃ c, l.join a b = .ok c ∧ carrier c ∧ rank c = rank a ⊔ rank b

section

variable {l : Lattice} {carrier : Json → Prop}

theorem Lawful.commutative (h : l.Lawful carrier) : l.Commutative carrier where
  total := h.total
  refl := h.refl
  symm := h.symm
  trans := h.trans
  comm := h.comm
  idem := h.idem

theorem Lawful.graded (h : l.Lawful carrier) : l.Graded carrier h.element where
  equivalent_iff ha hb := (h.element_eq_iff ha hb).symm
  join ha hb := by
    obtain ⟨c, hj, -⟩ := h.total ha hb
    exact ⟨c, hj, h.element_join ha hb hj⟩

theorem joinUnlisted_eq (a b : Json) : joinUnlisted a b = a ∨ joinUnlisted a b = b := by
  unfold joinUnlisted
  split
  · exact .inl rfl
  split
  · exact .inl rfl
  · exact .inr rfl

theorem joinUnlisted_comm (a b : Json) : (joinUnlisted a b == joinUnlisted b a) = true := by
  unfold joinUnlisted
  by_cases hab : (a == b) = true
  · rw [if_pos hab, if_pos (Json.beq_symm hab)]
    exact hab
  · rw [if_neg hab, if_neg fun hba => hab (Json.beq_symm hba)]
    rcases lt_trichotomy a.text b.text with hlt | heq | hlt
    · rw [if_neg hlt.not_ge, if_pos hlt.le]
      exact Json.beq_refl b
    · rw [Json.text_injective heq, ite_self]
      exact Json.beq_refl b
    · rw [if_pos hlt.le, if_neg hlt.not_ge]
      exact Json.beq_refl a

theorem joinUnlisted_self (a : Json) : joinUnlisted a a = a := if_pos (Json.beq_refl a)

theorem unlisted_commutative : unlisted.Commutative carrier where
  total {a b} ha hb := ⟨_, rfl, by rcases joinUnlisted_eq a b with h | h <;> rwa [h]⟩
  refl _ := Json.beq_refl _
  symm _ _ := Json.beq_symm
  trans _ _ _ := Json.beq_trans
  comm _ _ hj hj' := by
    cases hj
    cases hj'
    exact joinUnlisted_comm _ _
  idem _ hj := by
    cases hj
    rw [joinUnlisted_self]
    exact Json.beq_refl _

theorem text_joinUnlisted {a b : Json} (h : (a == b) = true → a = b) :
    (joinUnlisted a b).text = a.text ⊔ b.text := by
  unfold joinUnlisted
  split
  · next he => rw [h he, sup_idem]
  split
  · next hle => exact (sup_of_le_left hle).symm
  · next hle => exact (sup_of_le_right (le_of_not_ge hle)).symm

theorem unlisted_graded (h : Json.Discrete carrier) : unlisted.Graded carrier Json.text where
  equivalent_iff {a b} ha hb := by
    constructor
    · exact fun he => congrArg Json.text (h a b ha hb he)
    · intro he
      rw [Json.text_injective he]
      exact Json.beq_refl b
  join {a b} ha hb := by
    obtain ⟨c, hj, hc⟩ := unlisted_commutative.total ha hb
    cases hj
    exact ⟨_, rfl, hc, text_joinUnlisted (h a b ha hb)⟩

/-! ## What two objects have under one key -/

theorem exists_joinAt (total : ∀ {a b}, carrier a → carrier b → ∃ c, l.join a b = .ok c ∧ carrier c)
    {x y : Option Json} (hx : ∀ a ∈ x, carrier a) (hy : ∀ b ∈ y, carrier b) :
    ∃ z, joinAt l x y = .ok z ∧ ∀ c ∈ z, carrier c := by
  rcases x with _ | a
  · exact ⟨y, rfl, hy⟩
  rcases y with _ | b
  · exact ⟨some a, rfl, hx⟩
  obtain ⟨c, hj, hc⟩ := total (hx a rfl) (hy b rfl)
  refine ⟨some c, ?_, ?_⟩
  · rw [Lattice.joinAt, hj]
    rfl
  · rintro _ ⟨⟩
    exact hc

theorem joinAt_some {a b : Json} {z : Option Json} (h : joinAt l (some a) (some b) = .ok z) :
    ∃ c, l.join a b = .ok c ∧ z = some c := by
  obtain ⟨c, hj, hz⟩ := ok_of_map h
  exact ⟨c, hj, hz.symm⟩

theorem Commutative.rel_refl (h : l.Commutative carrier) {x : Option Json} (hx : ∀ a ∈ x, carrier a) :
    Option.Rel (fun a b => l.equivalent a b = true) x x := by
  cases x with
  | none => exact .none
  | some a => exact .some (h.refl (hx a rfl))

theorem Commutative.rel_symm (h : l.Commutative carrier) {x y : Option Json} (hx : ∀ a ∈ x, carrier a)
    (hy : ∀ b ∈ y, carrier b) (hr : Option.Rel (fun a b => l.equivalent a b = true) x y) :
    Option.Rel (fun a b => l.equivalent a b = true) y x := by
  cases hr with
  | none => exact .none
  | some he => exact .some (h.symm (hx _ rfl) (hy _ rfl) he)

theorem Commutative.rel_trans (h : l.Commutative carrier) {x y z : Option Json} (hx : ∀ a ∈ x, carrier a)
    (hy : ∀ b ∈ y, carrier b) (hz : ∀ c ∈ z, carrier c) (hr : Option.Rel (fun a b => l.equivalent a b = true) x y)
    (hr' : Option.Rel (fun a b => l.equivalent a b = true) y z) :
    Option.Rel (fun a b => l.equivalent a b = true) x z := by
  cases hr with
  | none => exact hr'
  | some he =>
    cases hr' with
    | some he' => exact .some (h.trans (hx _ rfl) (hy _ rfl) (hz _ rfl) he he')

theorem Commutative.joinAt_comm (h : l.Commutative carrier) {x y z z' : Option Json} (hx : ∀ a ∈ x, carrier a)
    (hy : ∀ b ∈ y, carrier b) (hz : Lattice.joinAt l x y = .ok z) (hz' : Lattice.joinAt l y x = .ok z') :
    Option.Rel (fun a b => l.equivalent a b = true) z z' := by
  cases x with
  | none =>
    cases hz
    cases y <;> cases hz' <;> exact h.rel_refl hy
  | some a =>
    cases y with
    | none =>
      cases hz
      cases hz'
      exact h.rel_refl hx
    | some b =>
      obtain ⟨c, hj, rfl⟩ := joinAt_some hz
      obtain ⟨c', hj', rfl⟩ := joinAt_some hz'
      exact .some (h.comm (hx a rfl) (hy b rfl) hj hj')

theorem Commutative.joinAt_self (h : l.Commutative carrier) {x z : Option Json} (hx : ∀ a ∈ x, carrier a)
    (hz : Lattice.joinAt l x x = .ok z) : Option.Rel (fun a b => l.equivalent a b = true) z x := by
  cases x with
  | none =>
    cases hz
    exact .none
  | some a =>
    obtain ⟨c, hj, rfl⟩ := joinAt_some hz
    exact .some (h.idem (hx a rfl) hj)

variable {α : Type} [SemilatticeSup α] {rank : Json → α}

/-- The rank of what an object has under a key. A member that is missing ranks below all others. -/
def rankAt (rank : Json → α) (x : Option Json) : WithBot α := x.elim ⊥ fun a => rank a

theorem Graded.rel_iff (h : l.Graded carrier rank) {x y : Option Json} (hx : ∀ a ∈ x, carrier a)
    (hy : ∀ b ∈ y, carrier b) :
    Option.Rel (fun a b => l.equivalent a b = true) x y ↔ rankAt rank x = rankAt rank y := by
  constructor
  · intro hr
    cases hr with
    | none => rfl
    | some he => exact WithBot.coe_inj.2 ((h.equivalent_iff (hx _ rfl) (hy _ rfl)).1 he)
  · intro he
    cases x with
    | none =>
      cases y with
      | none => exact .none
      | some b => exact absurd he (WithBot.bot_ne_coe)
    | some a =>
      cases y with
      | none => exact absurd he (WithBot.coe_ne_bot)
      | some b => exact .some ((h.equivalent_iff (hx a rfl) (hy b rfl)).2 (WithBot.coe_inj.1 he))

theorem Graded.joinAt (h : l.Graded carrier rank) {x y : Option Json} (hx : ∀ a ∈ x, carrier a)
    (hy : ∀ b ∈ y, carrier b) :
    ∃ z, Lattice.joinAt l x y = .ok z ∧ (∀ c ∈ z, carrier c) ∧ rankAt rank z = rankAt rank x ⊔ rankAt rank y := by
  rcases x with _ | a
  · exact ⟨y, rfl, hy, (bot_sup_eq _).symm⟩
  rcases y with _ | b
  · exact ⟨some a, rfl, hx, (sup_bot_eq _).symm⟩
  obtain ⟨c, hj, hc, hr⟩ := h.join (hx a rfl) (hy b rfl)
  refine ⟨some c, ?_, ?_, ?_⟩
  · rw [Lattice.joinAt, hj]
    rfl
  · rintro _ ⟨⟩
    exact hc
  · exact WithBot.coe_inj.2 hr

end

/-! ## Laws of the record -/

/-- Null, or an object that has under each key what the key allows. -/
def Members (P : String → Json → Prop) (v : Json) : Prop :=
  v = .null ∨ ∃ m, v = .obj m ∧ Ordered m ∧ ∀ k, ∀ x ∈ find? k m, P k x

variable {fields : Dict Lattice} {name : String} {P : String → Json → Prop} {a b : Json}

theorem Members.find? {m : List (String × Json)} (h : Members P (.obj m)) (k : String) : ∀ x ∈ find? k m, P k x := by
  obtain h | ⟨m, hm, -, hp⟩ := h
  · cases h
  · cases hm
    exact hp k

theorem record_join_null (hb : Members P b) : (record name fields).join b .null = .ok b := by
  rcases hb with rfl | ⟨n, rfl, -, -⟩ <;> rfl

theorem record_join_obj_iff {m n : List (String × Json)} {c : Json} (hm : Ordered m) (hn : Ordered n) :
    (record name fields).join (.obj m) (.obj n) = .ok c ↔ ∃ out, c = .obj out ∧ Ordered out ∧
      ∀ k, joinAt (member fields k) (Entries.find? k m) (Entries.find? k n) = .ok (Entries.find? k out) := by
  rw [record_join_obj]
  constructor
  · rintro ⟨out, hout, rfl⟩
    exact ⟨out, rfl, (joinMembers_eq_ok_iff hm hn).1 hout⟩
  · rintro ⟨out, rfl, hout⟩
    exact ⟨out, (joinMembers_eq_ok_iff hm hn).2 hout, rfl⟩

theorem exists_record_join (name : String) {m n : List (String × Json)} (hm : Ordered m) (hn : Ordered n)
    (h : ∀ k, ∃ z, joinAt (member fields k) (Entries.find? k m) (Entries.find? k n) = .ok z ∧ ∀ c ∈ z, P k c) :
    ∃ out, (record name fields).join (.obj m) (.obj n) = .ok (.obj out) ∧ Members P (.obj out) ∧
      ∀ k, joinAt (member fields k) (Entries.find? k m) (Entries.find? k n) = .ok (Entries.find? k out) := by
  obtain ⟨out, hout⟩ := exists_joinMembers hn fun k => (h k).imp fun _ hz => hz.1
  obtain ⟨ho, hk⟩ := (joinMembers_eq_ok_iff hm hn).1 hout
  refine ⟨out, record_join_obj.2 ⟨out, hout, rfl⟩, .inr ⟨out, rfl, ho, fun k => ?_⟩, hk⟩
  obtain ⟨z, hz, hp⟩ := h k
  cases hz.symm.trans (hk k)
  exact hp

theorem record_equivalent_iff (ha : Members P a) (hb : Members P b) :
    (record name fields).equivalent a b = true ↔ (a = .null ∧ b = .null) ∨
      ∃ m n, a = .obj m ∧ b = .obj n ∧
        ∀ k, Option.Rel (fun x y => (member fields k).equivalent x y = true) (find? k m) (find? k n) := by
  rcases ha with rfl | ⟨m, rfl, hm, -⟩ <;> rcases hb with rfl | ⟨n, rfl, hn, -⟩
  · exact iff_of_true rfl (.inl ⟨rfl, rfl⟩)
  · exact iff_of_false Bool.false_ne_true (by simp)
  · exact iff_of_false Bool.false_ne_true (by simp)
  · rw [record_equivalent_obj hm hn]
    simp

theorem record_refl (h : ∀ k, (member fields k).Commutative (P k)) (ha : Members P a) :
    (record name fields).equivalent a a = true :=
  (record_equivalent_iff ha ha).2 <| by
    rcases ha with rfl | ⟨m, rfl, -, hpm⟩
    · exact .inl ⟨rfl, rfl⟩
    · exact .inr ⟨m, m, rfl, rfl, fun k => (h k).rel_refl (hpm k)⟩

theorem record_commutative (h : ∀ k, (member fields k).Commutative (P k)) :
    (record name fields).Commutative (Members P) where
  total ha hb := by
    rcases ha with rfl | ⟨m, rfl, hm, hpm⟩
    · exact ⟨_, rfl, hb⟩
    rcases hb with rfl | ⟨n, rfl, hn, hpn⟩
    · exact ⟨_, rfl, .inr ⟨m, rfl, hm, hpm⟩⟩
    obtain ⟨out, hj, hout, -⟩ := exists_record_join name hm hn fun k => exists_joinAt (h k).total (hpm k) (hpn k)
    exact ⟨_, hj, hout⟩
  refl := record_refl h
  symm ha hb he := (record_equivalent_iff hb ha).2 <| by
    rcases (record_equivalent_iff ha hb).1 he with ⟨rfl, rfl⟩ | ⟨m, n, rfl, rfl, hr⟩
    · exact .inl ⟨rfl, rfl⟩
    · exact .inr ⟨n, m, rfl, rfl, fun k => (h k).rel_symm (ha.find? k) (hb.find? k) (hr k)⟩
  trans ha hb hc he he' := (record_equivalent_iff ha hc).2 <| by
    rcases (record_equivalent_iff ha hb).1 he with ⟨rfl, rfl⟩ | ⟨m, n, rfl, rfl, hr⟩
    · rcases (record_equivalent_iff hb hc).1 he' with ⟨-, rfl⟩ | ⟨_, _, hn, -⟩
      · exact .inl ⟨rfl, rfl⟩
      · cases hn
    · rcases (record_equivalent_iff hb hc).1 he' with ⟨hn, -⟩ | ⟨_, o, hn, rfl, hr'⟩
      · cases hn
      · cases hn
        exact .inr ⟨m, o, rfl, rfl, fun k => (h k).rel_trans (ha.find? k) (hb.find? k) (hc.find? k) (hr k) (hr' k)⟩
  comm {a b c c'} ha hb hj hj' := by
    rcases ha with rfl | ⟨m, rfl, hm, hpm⟩
    · cases hj
      cases (record_join_null hb).symm.trans hj'
      exact record_refl h hb
    rcases hb with rfl | ⟨n, rfl, hn, hpn⟩
    · cases hj
      cases hj'
      exact record_refl h (.inr ⟨m, rfl, hm, hpm⟩)
    obtain ⟨out, rfl, ho, hk⟩ := (record_join_obj_iff hm hn).1 hj
    obtain ⟨out', rfl, ho', hk'⟩ := (record_join_obj_iff hn hm).1 hj'
    exact (record_equivalent_obj ho ho').2 fun k => (h k).joinAt_comm (hpm k) (hpn k) (hk k) (hk' k)
  idem {a b} ha hj := by
    rcases ha with rfl | ⟨m, rfl, hm, hpm⟩
    · cases hj
      rfl
    obtain ⟨out, rfl, ho, hk⟩ := (record_join_obj_iff hm hm).1 hj
    exact (record_equivalent_obj ho hm).2 fun k => (h k).joinAt_self (hpm k) (hk k)

/-! ## Ranks of records -/

variable {α : String → Type} [∀ k, SemilatticeSup (α k)] {rank : ∀ k, Json → α k}

/-- The rank of an object has those of its members in it. Null ranks below all objects. -/
def recordRank (rank : ∀ k, Json → α k) (v : Json) : WithBot (∀ k, WithBot (α k)) :=
  match v with
  | .obj m => ((fun k => rankAt (rank k) (find? k m) : ∀ k, WithBot (α k)))
  | _ => ⊥

theorem record_ranked (h : ∀ k, (member fields k).Graded (P k) (rank k)) :
    (record name fields).Ranked (Members P) (recordRank rank) where
  null_mem := .inl rfl
  rank_null := rfl
  equivalent_iff {a b} ha hb := by
    rcases ha with rfl | ⟨m, rfl, hm, hpm⟩ <;> rcases hb with rfl | ⟨n, rfl, hn, hpn⟩
    · exact iff_of_true rfl rfl
    · exact iff_of_false Bool.false_ne_true WithBot.bot_ne_coe
    · exact iff_of_false Bool.false_ne_true WithBot.coe_ne_bot
    · rw [record_equivalent_obj hm hn, recordRank, recordRank, WithBot.coe_inj, funext_iff]
      exact forall_congr' fun k => (h k).rel_iff (hpm k) (hpn k)
  join {a b} ha hb := by
    rcases ha with rfl | ⟨m, rfl, hm, hpm⟩
    · exact ⟨b, rfl, hb, (bot_sup_eq _).symm⟩
    rcases hb with rfl | ⟨n, rfl, hn, hpn⟩
    · exact ⟨.obj m, rfl, .inr ⟨m, rfl, hm, hpm⟩, (sup_bot_eq _).symm⟩
    have hat (k : String) := (h k).joinAt (hpm k) (hpn k)
    obtain ⟨out, hj, hout, hk⟩ :=
      exists_record_join name hm hn fun k => (hat k).imp fun _ hz => ⟨hz.1, hz.2.1⟩
    refine ⟨.obj out, hj, hout, WithBot.coe_inj.2 (funext fun k => ?_)⟩
    obtain ⟨z, hz, -, hr⟩ := hat k
    cases hz.symm.trans (hk k)
    exact hr

end Patchbay.Lattice
