import Patchbay.Proofs.Lattice.Unread
import Patchbay.Proofs.Number.Rounding

/-! Joins to the letter. A join keeps a number as it is written, and so a member that no lattice is listed for; of two
that are the same it keeps the one that was there. Where no two that are the same are written differently, a join is
commutative and associative to the letter, and not only up to equivalence. -/

namespace Patchbay

namespace Lattice

/-- Of two values that are the same, as numbers or altogether, neither is written differently. -/
def Unambiguous (written : Json → Prop) : Prop :=
  ∀ a b, written a → written b → numbersEquivalent a b = true → a = b

/-- A join is commutative and associative on the values of a carrier, to the letter. -/
structure Exact (l : Lattice) (carrier : Json → Prop) : Prop where
  total : ∀ {a b}, carrier a → carrier b → ∃ c, l.join a b = .ok c ∧ carrier c
  comm : ∀ {a b c}, carrier a → carrier b → l.join a b = .ok c → l.join b a = .ok c
  assoc : ∀ {a b c ab bc x}, carrier a → carrier b → carrier c → l.join a b = .ok ab → l.join ab c = .ok x →
    l.join b c = .ok bc → l.join a bc = .ok x

variable {l : Lattice} {carrier smaller written : Json → Prop} {a b c : Json}

theorem Unambiguous.mono {more : Json → Prop} (h : Unambiguous more) (hsub : ∀ v, written v → more v) :
    Unambiguous written :=
  fun a b ha hb => h a b (hsub a ha) (hsub b hb)

/-- Two values come to the same in either order, joined into a third one after the other. -/
theorem Exact.swap (h : l.Exact carrier) {x ax bx y : Json} (hx : carrier x) (ha : carrier a) (hb : carrier b)
    (hax : l.join x a = .ok ax) (hy : l.join ax b = .ok y) (hbx : l.join x b = .ok bx) : l.join bx a = .ok y := by
  obtain ⟨bx', hbx', hmbx⟩ := h.total hx hb
  cases hbx.symm.trans hbx'
  obtain ⟨z, hz, -⟩ := h.total hmbx ha
  -- both orders come to `x` joined with `a` and `b` at once
  obtain ⟨ab, hab, -⟩ := h.total ha hb
  have hyab : l.join x ab = .ok y := h.assoc hx ha hb hax hy hab
  have hzab : l.join x ab = .ok z := h.assoc hx hb ha hbx hz (h.comm ha hb hab)
  rw [hz, ← hzab, hyab]

/-! ## Exact lattices by rank -/

section

variable {α : Type} [SemilatticeSup α] [OrderBot α] {rank : Json → α}

theorem Ranked.graded (h : l.Ranked carrier rank) : l.Graded carrier rank where
  equivalent_iff := h.equivalent_iff
  join := h.join

end

section

variable {α : Type} [SemilatticeSup α] {rank : Json → α}

theorem Graded.of_join (h : l.Graded carrier rank) (ha : carrier a) (hb : carrier b) (hj : l.join a b = .ok c) :
    carrier c ∧ rank c = rank a ⊔ rank b := by
  obtain ⟨c', hj', hc⟩ := h.join ha hb
  cases hj.symm.trans hj'
  exact hc

theorem Graded.restrict (h : l.Graded carrier rank) (hsub : ∀ {v}, smaller v → carrier v)
    (closed : ∀ {a b c}, smaller a → smaller b → l.join a b = .ok c → smaller c) : l.Graded smaller rank where
  equivalent_iff ha hb := h.equivalent_iff (hsub ha) (hsub hb)
  join ha hb := by
    obtain ⟨c, hj, -, hr⟩ := h.join (hsub ha) (hsub hb)
    exact ⟨c, hj, closed ha hb hj, hr⟩

/-- A graded lattice is exact where outcomes of joins are told apart by their ranks. -/
theorem Graded.exact (h : l.Graded carrier rank)
    (same : ∀ {a b c a' b' c'}, carrier a → carrier b → carrier a' → carrier b' → l.join a b = .ok c →
      l.join a' b' = .ok c' → rank c = rank c' → c = c') : l.Exact carrier where
  total ha hb := by
    obtain ⟨c, hj, hc, -⟩ := h.join ha hb
    exact ⟨c, hj, hc⟩
  comm {a b c} ha hb hj := by
    obtain ⟨c', hj', -, hr'⟩ := h.join hb ha
    have hr : rank c = rank c' := by rw [(h.of_join ha hb hj).2, hr', sup_comm]
    rw [hj', same ha hb hb ha hj hj' hr]
  assoc {a b c ab bc x} ha hb hc hab hx hbc := by
    obtain ⟨hmab, hrab⟩ := h.of_join ha hb hab
    obtain ⟨hmbc, hrbc⟩ := h.of_join hb hc hbc
    obtain ⟨y, hy, -, hry⟩ := h.join ha hmbc
    have hr : rank x = rank y := by rw [(h.of_join hmab hc hx).2, hry, hrab, hrbc, sup_assoc]
    rw [hy, same hmab hc ha hmbc hx hy hr]

end

/-! ## The lattices at hand -/

section

variable {name : String} {better : Double → Double → Bool} {α : Type} [SemilatticeSup α] {rank : Json → α}

theorem numeric_keeps (hj : (numeric name better).join a b = .ok c) : c = a ∨ c = b := by
  obtain ⟨x, -, hj⟩ := ok_of_bind hj
  obtain ⟨y, -, hj⟩ := ok_of_bind hj
  obtain rfl := Except.ok.inj hj
  cases x with
  | none => exact .inr rfl
  | some x =>
    cases y with
    | none => exact .inl rfl
    | some y => exact (ite_eq_or_eq _ b a).symm

/-- Null, or a number of those written. -/
def WrittenNumber (written : Json → Prop) (v : Json) : Prop := Numeric v ∧ ∀ n, v = .num n → written v

theorem WrittenNumber.eq (h : Unambiguous written) (ha : WrittenNumber written a) (hb : WrittenNumber written b)
    (he : numbersEquivalent a b = true) : a = b := by
  obtain ⟨rfl | ⟨m, x, rfl, -⟩, hm⟩ := ha
  · obtain ⟨rfl | ⟨n, y, rfl, -⟩, -⟩ := hb
    · rfl
    · cases he
  · obtain ⟨rfl | ⟨n, y, rfl, -⟩, hn⟩ := hb
    · cases he
    · exact h _ _ (hm m rfl) (hn n rfl) he

theorem numeric_exact (hg : (numeric name better).Graded Numeric rank) (h : Unambiguous written) :
    (numeric name better).Exact (WrittenNumber written) := by
  have closed : ∀ {a b c}, WrittenNumber written a → WrittenNumber written b →
      (numeric name better).join a b = .ok c → WrittenNumber written c := by
    intro a b c ha hb hj
    rcases numeric_keeps hj with rfl | rfl
    · exact ha
    · exact hb
  refine (hg.restrict And.left closed).exact fun ha hb ha' hb' hj hj' hr => ?_
  have hc := closed ha hb hj
  have hc' := closed ha' hb' hj'
  exact hc.eq h hc' ((hg.equivalent_iff hc.1 hc'.1).2 hr)

end

theorem setUnion_exact : setUnion.Exact Listing := by
  refine setUnion_ranked.graded.exact fun ha hb ha' hb' hj hj' hr => ?_
  have hc := (setUnion_ranked.of_join ha hb hj).1
  have hc' := (setUnion_ranked.of_join ha' hb' hj').1
  have he := (setUnion_ranked.equivalent_iff hc hc').2 hr
  obtain ⟨items, rfl, hitems⟩ := ascending_of_setUnion hj
  obtain ⟨items', rfl, hitems'⟩ := ascending_of_setUnion hj'
  have htexts := texts_eq_of_ascending ⟨items, rfl, hitems⟩ ⟨items', rfl, hitems'⟩ he
  rw [List.map_injective_iff.2 Json.text_injective htexts]

theorem disjunction_exact : disjunction.Exact Flag := by
  refine disjunction_ranked.graded.exact fun ha hb ha' hb' hj hj' hr => ?_
  cases (disjunction_join ha hb).symm.trans hj
  cases (disjunction_join ha' hb').symm.trans hj'
  exact congrArg Json.bool hr

theorem numbersEquivalent_of_beq (h : (a == b) = true) : numbersEquivalent a b = true := by
  unfold numbersEquivalent
  split
  · next m n =>
    have hsame : m.same n = true := h
    cases m with
    | int i =>
      cases n with
      | int j =>
        obtain rfl : i = j := beq_iff_eq.1 hsame
        cases Number.toDouble? (.int i) with
        | none => rfl
        | some x => exact beq_self_eq_true x.units
      | float y => cases hsame
    | float x =>
      cases n with
      | int j => cases hsame
      | float y => exact hsame
  · exact h

theorem Unambiguous.discrete (h : Unambiguous written) : Json.Discrete written :=
  fun a b ha hb he => h a b ha hb (numbersEquivalent_of_beq he)

/-- Integers that are exact as doubles are told apart as numbers. -/
theorem unambiguous_int : Unambiguous fun v => ∃ i : Int, i.natAbs ≤ 2 ^ 53 ∧ v = .int i := by
  rintro _ _ ⟨i, hi, rfl⟩ ⟨j, hj, rfl⟩ he
  obtain ⟨x, hx⟩ := Double.exists_ofInt? (i := i) (by omega)
  obtain ⟨y, hy⟩ := Double.exists_ofInt? (i := j) (by omega)
  have hnum : (Number.int i).toDouble? = some x := hx
  have hnum' : (Number.int j).toDouble? = some y := hy
  rw [Json.int, Json.int, numbersEquivalent_num hnum hnum'] at he
  have hrounded := (Double.units_ofInt?_eq_iff hx hy).1 (beq_iff_eq.1 he)
  rw [Double.rounded_of_natAbs_le hi, Double.rounded_of_natAbs_le hj] at hrounded
  rw [hrounded]

theorem unlisted_exact (h : Unambiguous written) : unlisted.Exact written :=
  (unlisted_graded h.discrete).exact fun _ _ _ _ _ _ hr => Json.text_injective hr

/-! ## Records -/

theorem joinAt_none_right (l : Lattice) (x : Option Json) : joinAt l x none = .ok x := by
  cases x <;> rfl

theorem Exact.joinAt_comm (h : l.Exact carrier) {x y z : Option Json} (hx : ∀ a ∈ x, carrier a)
    (hy : ∀ b ∈ y, carrier b) (hz : Lattice.joinAt l x y = .ok z) : Lattice.joinAt l y x = .ok z := by
  rcases x with _ | a
  · rw [joinAt_none_right]
    exact hz
  rcases y with _ | b
  · exact hz
  obtain ⟨c, hj, rfl⟩ := joinAt_some hz
  rw [Lattice.joinAt, h.comm (hx a rfl) (hy b rfl) hj]
  rfl

theorem Exact.joinAt_assoc (h : l.Exact carrier) {x y z xy yz out : Option Json} (hx : ∀ a ∈ x, carrier a)
    (hy : ∀ b ∈ y, carrier b) (hz : ∀ c ∈ z, carrier c) (hxy : Lattice.joinAt l x y = .ok xy)
    (hout : Lattice.joinAt l xy z = .ok out) (hyz : Lattice.joinAt l y z = .ok yz) :
    Lattice.joinAt l x yz = .ok out := by
  rcases x with _ | a
  · cases hxy
    exact hyz.symm.trans hout
  rcases y with _ | b
  · cases hxy
    cases hyz
    exact hout
  obtain ⟨ab, hab, rfl⟩ := joinAt_some hxy
  rcases z with _ | c
  · cases hout
    cases hyz
    exact hxy
  obtain ⟨abc, habc, rfl⟩ := joinAt_some hout
  obtain ⟨bc, hbc, rfl⟩ := joinAt_some hyz
  rw [Lattice.joinAt, h.assoc (hx a rfl) (hy b rfl) (hz c rfl) hab habc hbc]
  rfl

variable {fields : Dict Lattice} {name : String} {P : String → Json → Prop}

/-- A record is exact where its members are. -/
theorem record_exact (h : ∀ k, (member fields k).Exact (P k)) : (record name fields).Exact (Members P) where
  total ha hb := by
    rcases ha with rfl | ⟨m, rfl, hm, hpm⟩
    · exact ⟨_, rfl, hb⟩
    rcases hb with rfl | ⟨n, rfl, hn, hpn⟩
    · exact ⟨_, rfl, .inr ⟨m, rfl, hm, hpm⟩⟩
    obtain ⟨out, hj, hout, -⟩ := exists_record_join name hm hn fun k => exists_joinAt (h k).total (hpm k) (hpn k)
    exact ⟨_, hj, hout⟩
  comm ha hb hj := by
    rcases ha with rfl | ⟨m, rfl, hm, hpm⟩
    · cases hj
      exact record_join_null hb
    rcases hb with rfl | ⟨n, rfl, hn, hpn⟩
    · cases hj
      rfl
    obtain ⟨out, rfl, ho, hk⟩ := (record_join_obj_iff hm hn).1 hj
    exact (record_join_obj_iff hn hm).2 ⟨out, rfl, ho, fun k => (h k).joinAt_comm (hpm k) (hpn k) (hk k)⟩
  assoc ha hb hc hab hx hbc := by
    rcases ha with rfl | ⟨m, rfl, hm, hpm⟩
    · cases hab
      exact hbc.symm.trans hx
    rcases hb with rfl | ⟨n, rfl, hn, hpn⟩
    · cases hab
      cases hbc
      exact hx
    rcases hc with rfl | ⟨o, rfl, ho, hpo⟩
    · cases hbc
      obtain ⟨mn, rfl, -⟩ := (record_join_obj_iff hm hn).1 hab
      cases hx
      exact hab
    obtain ⟨mn, rfl, hmn, hkab⟩ := (record_join_obj_iff hm hn).1 hab
    obtain ⟨no, rfl, hno, hkbc⟩ := (record_join_obj_iff hn ho).1 hbc
    obtain ⟨out, rfl, hout, hkx⟩ := (record_join_obj_iff hmn ho).1 hx
    exact (record_join_obj_iff hm hno).2
      ⟨out, rfl, hout, fun k => (h k).joinAt_assoc (hpm k) (hpn k) (hpo k) (hkab k) (hkx k) (hkbc k)⟩

end Lattice

namespace LatticeSpec

variable {s : LatticeSpec} {written : Json → Prop}

/-- A part of `v`, as a value of `s`, that joins keep or drop as it is written: a number of a numeric lattice, or a
member that no lattice is listed for. -/
inductive Verbatim : LatticeSpec → Json → Json → Prop
  | number {s : LatticeSpec} (hs : s = .max ∨ s = .min) (n : Number) : Verbatim s (.num n) (.num n)
  | listed {name : String} {fields : List (String × LatticeSpec)} {m : List (String × Json)} {k : String}
    {s : LatticeSpec} {v p : Json} (hk : field? fields k = some s) (hv : Entries.find? k m = some v)
    (h : Verbatim s v p) : Verbatim (.record name fields) (.obj m) p
  | unlisted {name : String} {fields : List (String × LatticeSpec)} {m : List (String × Json)} {k : String} {v : Json}
    (hk : field? fields k = none) (hv : Entries.find? k m = some v) : Verbatim (.record name fields) (.obj m) v

/-- A value of the carrier of which the parts that are kept as written are among those given. -/
def WrittenIn (written : Json → Prop) (s : LatticeSpec) (v : Json) : Prop :=
  s.Carrier v ∧ ∀ p, s.Verbatim v p → written p

theorem writtenIn_null (written : Json → Prop) (s : LatticeSpec) : s.WrittenIn written .null := by
  refine ⟨carrierOver_null s, fun p h => ?_⟩
  cases h

theorem writtenIn_numeric (hs : s = .max ∨ s = .min) : WrittenIn written s = Lattice.WrittenNumber written := by
  have hcarrier : s.Carrier = Lattice.Numeric := by
    rcases hs with rfl | rfl
    · exact Simple.max.carrierOver_eq
    · exact Simple.min.carrierOver_eq
  funext v
  rw [WrittenIn, Lattice.WrittenNumber, hcarrier]
  refine propext (and_congr_right fun _ => ⟨?_, fun h p hp => ?_⟩)
  · rintro h n rfl
    exact h _ (.number hs n)
  · cases hp with
    | number _ n => exact h n rfl
    | listed | unlisted => rcases hs with hs | hs <;> cases hs

theorem writtenIn_of_simple (hs : s.Simple) (hno : ¬(s = .max ∨ s = .min)) : WrittenIn written s = s.wholeCarrier := by
  funext v
  rw [WrittenIn, Carrier, hs.carrierOver_eq]
  refine propext (and_iff_left fun p hp => ?_)
  cases hp with
  | number h => exact absurd h hno
  | listed | unlisted => cases hs

/-- What a record may hold under a key, if what is kept as written is among the values given. -/
def memberWritten (written : Json → Prop) (fields : List (String × LatticeSpec)) (k : String) : Json → Prop :=
  ((field? fields k).map (WrittenIn written)).getD written

theorem memberWritten_iff {fields : List (String × LatticeSpec)} {k : String} {v : Json} :
    memberWritten written fields k v ↔ memberCarrier (fun _ => True) fields k v ∧
      (∀ s, field? fields k = some s → ∀ p, s.Verbatim v p → written p) ∧ (field? fields k = none → written v) := by
  unfold memberWritten memberCarrier
  cases field? fields k <;> simp [WrittenIn]

theorem writtenIn_record {name : String} {fields : List (String × LatticeSpec)} :
    WrittenIn written (.record name fields) = Lattice.Members (memberWritten written fields) := by
  funext v
  rw [WrittenIn, Carrier, carrierOver_record]
  refine propext ⟨?_, ?_⟩
  · rintro ⟨rfl | ⟨m, rfl, ho, hm⟩, h⟩
    · exact .inl rfl
    · refine .inr ⟨m, rfl, ho, fun k x hx => memberWritten_iff.2 ⟨hm k x hx, fun s hk p hp => ?_, fun hk => ?_⟩⟩
      · exact h p (.listed hk hx hp)
      · exact h x (.unlisted hk hx)
  · rintro (rfl | ⟨m, rfl, ho, hm⟩)
    · refine ⟨.inl rfl, fun p hp => ?_⟩
      cases hp
    · refine ⟨.inr ⟨m, rfl, ho, fun k x hx => (memberWritten_iff.1 (hm k x hx)).1⟩, fun p hp => ?_⟩
      cases hp with
      | listed hk hx hp => exact (memberWritten_iff.1 (hm _ _ hx)).2.1 _ hk p hp
      | unlisted hk hx => exact (memberWritten_iff.1 (hm _ _ hx)).2.2 hk

theorem Simple.exact (hs : s.Simple) (h : Lattice.Unambiguous written) : s.toLattice.Exact (s.WrittenIn written) := by
  cases hs with
  | max =>
    rw [writtenIn_numeric (.inl rfl)]
    exact Lattice.numeric_exact Lattice.max_ranked.graded h
  | min =>
    rw [writtenIn_numeric (.inr rfl)]
    exact Lattice.numeric_exact Lattice.min_ranked.graded h
  | setUnion =>
    rw [writtenIn_of_simple .setUnion (by simp)]
    exact Lattice.setUnion_exact
  | disjunction =>
    rw [writtenIn_of_simple .disjunction (by simp)]
    exact Lattice.disjunction_exact

/-- Simple lattices and records of them to any depth are exact, where nothing that is the same is written differently. -/
theorem Plain.exact (hs : s.Plain) (h : Lattice.Unambiguous written) : s.toLattice.Exact (s.WrittenIn written) := by
  induction hs with
  | simple hs => exact hs.exact h
  | @record name fields _ ih =>
    rw [writtenIn_record, toLattice]
    refine Lattice.record_exact fun k => ?_
    rw [member_toLattices, memberWritten]
    cases hk : field? fields k with
    | none => exact Lattice.unlisted_exact h
    | some s => exact ih k s (mem_of_field? hk)

end LatticeSpec

end Patchbay
