import Patchbay.Lattice.Registry
import Patchbay.Proofs.Lattice.Memberwise

/-! Lattices by description, and what belongs to each of them. -/

namespace Patchbay

namespace Entries

variable {α β : Type} {f : α → β}

theorem merge_map (f : α → β) (l r : List (String × α)) :
    merge (l.map fun e => (e.1, f e.2)) (r.map fun e => (e.1, f e.2)) = (merge l r).map fun e => (e.1, f e.2) := by
  induction l generalizing r with
  | nil => rfl
  | cons d l ih =>
    rw [List.map_cons, merge, merge]
    induction r with
    | nil =>
      rw [List.map_nil, mergeEntry, mergeEntry, List.map_cons, ← ih, List.map_nil]
    | cons e r ihr =>
      simp only [List.map_cons, mergeEntry]
      split
      · rw [List.map_cons, ← ih, List.map_cons]
      split
      · rw [List.map_cons, ← ih]
      · rw [List.map_cons, ← ihr]

theorem ofList_map (f : α → β) (l : List (String × α)) :
    ofList (l.map fun e => (e.1, f e.2)) = (ofList l).map fun e => (e.1, f e.2) := by
  induction l with
  | nil => rfl
  | cons e rest ih =>
    have hstep := merge_map f [e] (ofList rest)
    rw [← ih] at hstep
    exact hstep

end Entries

theorem Dict.get?_ofList_map {α β : Type} (f : α → β) (l : List (String × α)) (k : String) :
    (Dict.ofList (l.map fun e => (e.1, f e.2))).get? k = ((Dict.ofList l).get? k).map f := by
  show Entries.find? k (Entries.ofList _) = _
  rw [Entries.ofList_map]
  exact Entries.find?_mapValues (fun _ => f) _ k

namespace LatticeSpec

/-! ## Descriptions -/

/-- The lattices that look at a value as a whole. -/
inductive Simple : LatticeSpec → Prop
  | max : Simple .max
  | min : Simple .min
  | setUnion : Simple .setUnion
  | disjunction : Simple .disjunction

/-- The simple lattices, and records of these to any depth. -/
inductive Plain : LatticeSpec → Prop
  | simple {s : LatticeSpec} (h : s.Simple) : Plain s
  | record {name : String} {fields : List (String × LatticeSpec)} (h : ∀ k s, (k, s) ∈ fields → Plain s) :
    Plain (.record name fields)

/-- What is listed under a key. Of two entries under one key the later one counts. -/
def field? (fields : List (String × LatticeSpec)) (k : String) : Option LatticeSpec :=
  (Dict.ofList fields).get? k

theorem mem_of_field? {fields : List (String × LatticeSpec)} {k : String} {s : LatticeSpec}
    (h : field? fields k = some s) : (k, s) ∈ fields :=
  Entries.mem_of_mem_ofList (Dict.get?_eq_some_iff.1 h)

theorem toLattices_eq_map (fields : List (String × LatticeSpec)) :
    toLattices fields = fields.map fun e => (e.1, toLattice e.2) := by
  induction fields with
  | nil => rfl
  | cons e rest ih => rw [toLattices, ih, List.map_cons]

theorem member_toLattices (fields : List (String × LatticeSpec)) (k : String) :
    Lattice.member (Dict.ofList (toLattices fields)) k = ((field? fields k).map toLattice).getD Lattice.unlisted := by
  rw [Lattice.member, toLattices_eq_map, Dict.get?_ofList_map]
  rfl

/-! ## Carriers -/

/-- The values of a lattice that looks at them as a whole. -/
def wholeCarrier : LatticeSpec → Json → Prop
  | .max => Lattice.Numeric
  | .min => Lattice.Numeric
  | .setUnion => Lattice.Listing
  | .disjunction => Lattice.Flag
  | .append => Lattice.Listing
  | .record _ _ => (· = .null)

/-- The values of a lattice. A record may hold the `free` values in members that no lattice is listed for. -/
inductive CarrierOver (free : Json → Prop) : LatticeSpec → Json → Prop
  | whole {s : LatticeSpec} {v : Json} (h : s.wholeCarrier v) : CarrierOver free s v
  | obj {name : String} {fields : List (String × LatticeSpec)} {members : List (String × Json)}
    (ho : Entries.Ordered members)
    (listed : ∀ k s v, field? fields k = some s → Entries.find? k members = some v → CarrierOver free s v)
    (unlisted : ∀ k v, field? fields k = none → Entries.find? k members = some v → free v) :
    CarrierOver free (.record name fields) (.obj members)

/-- The values of a lattice, its records with anything in the members that no lattice is listed for. -/
abbrev Carrier : LatticeSpec → Json → Prop := CarrierOver fun _ => True

section

variable {free free' : Json → Prop} {s : LatticeSpec} {v : Json}

theorem carrierOver_null (s : LatticeSpec) : CarrierOver free s .null := by
  refine .whole ?_
  cases s with
  | record => rfl
  | _ => exact .inl rfl

theorem CarrierOver.mono (hf : ∀ v, free v → free' v) (h : CarrierOver free s v) : CarrierOver free' s v := by
  induction h with
  | whole h => exact .whole h
  | obj ho _ unlisted ih => exact .obj ho ih fun k v hk hv => hf v (unlisted k v hk hv)

theorem Simple.carrierOver_eq (hs : s.Simple) : CarrierOver free s = s.wholeCarrier := by
  funext v
  refine propext ⟨fun h => ?_, .whole⟩
  cases h with
  | whole h => exact h
  | obj => cases hs

/-- What a record may hold under a key. -/
def memberCarrier (free : Json → Prop) (fields : List (String × LatticeSpec)) (k : String) : Json → Prop :=
  ((field? fields k).map (CarrierOver free)).getD free

theorem carrierOver_record {name : String} {fields : List (String × LatticeSpec)} :
    CarrierOver free (.record name fields) = Lattice.Members (memberCarrier free fields) := by
  funext v
  refine propext ⟨fun h => ?_, ?_⟩
  · cases h with
    | whole h => exact .inl h
    | obj ho listed unlisted =>
      refine .inr ⟨_, rfl, ho, fun k x hx => ?_⟩
      unfold memberCarrier
      cases hk : field? fields k with
      | none => exact unlisted k x hk hx
      | some s => exact listed k s x hk hx
  · rintro (rfl | ⟨m, rfl, ho, hm⟩)
    · exact .whole rfl
    · refine .obj ho (fun k s x hk hx => ?_) fun k x hk hx => ?_
      all_goals
        have hp := hm k x hx
        rwa [memberCarrier, hk] at hp

end

/-! ## Laws -/

variable {s : LatticeSpec} {free : Json → Prop}

theorem Simple.lawful (hs : s.Simple) : s.toLattice.Lawful (s.CarrierOver free) := by
  rw [hs.carrierOver_eq]
  cases hs with
  | max => exact Lattice.max_ranked.lawful
  | min => exact Lattice.min_ranked.lawful
  | setUnion => exact Lattice.setUnion_ranked.lawful
  | disjunction => exact Lattice.disjunction_lawful

theorem Plain.commutative (hs : s.Plain) : s.toLattice.Commutative (s.CarrierOver free) := by
  induction hs with
  | simple h => exact h.lawful.commutative
  | @record name fields _ ih =>
    rw [carrierOver_record, toLattice]
    refine Lattice.record_commutative fun k => ?_
    rw [member_toLattices, memberCarrier]
    cases hk : field? fields k with
    | none => exact Lattice.unlisted_commutative
    | some s => exact ih k s (mem_of_field? hk)

/-- Where the unlisted members hold no two values that are the same but for the signs of their zeros, all the laws are
kept. -/
theorem Plain.lawful (hs : s.Plain) (hf : Json.Discrete free) : s.toLattice.Lawful (s.CarrierOver free) := by
  induction hs with
  | simple h => exact h.lawful
  | @record name fields _ ih =>
    have hgraded (k : String) : ∃ (α : Type) (_ : SemilatticeSup α) (rank : Json → α),
        (Lattice.member (Dict.ofList (toLattices fields)) k).Graded (memberCarrier free fields k) rank := by
      rw [member_toLattices, memberCarrier]
      cases hk : field? fields k with
      | none => exact ⟨String, inferInstance, Json.text, Lattice.unlisted_graded hf⟩
      | some s => exact ⟨_, _, _, (ih k s (mem_of_field? hk)).graded⟩
    -- the ranks under different keys are of different types
    choose α hα rank hrank using hgraded
    rw [carrierOver_record, toLattice]
    exact (Lattice.record_ranked hrank).lawful

/-! ## Records -/

section

variable {name : String} {fields : List (String × LatticeSpec)} {m n out : List (String × Json)} {k : String} {x y : Json}

theorem text_joinUnlisted (hne : (x == y) = false) :
    ∃ z, Lattice.joinUnlisted x y = z ∧ (z = x ∨ z = y) ∧ x.text ≤ z.text ∧ y.text ≤ z.text ∧ x.text ≠ y.text := by
  have htext : (Lattice.joinUnlisted x y).text = x.text ⊔ y.text :=
    Lattice.text_joinUnlisted fun he => absurd he (by rw [hne]; exact Bool.false_ne_true)
  refine ⟨_, rfl, Lattice.joinUnlisted_eq x y, htext ▸ le_sup_left, htext ▸ le_sup_right, fun he => ?_⟩
  rw [Json.text_injective he, Json.beq_refl] at hne
  cases hne

theorem find?_unlisted (hn : Entries.Ordered n)
    (hj : (toLattice (.record name fields)).join (.obj m) (.obj n) = .ok (.obj out)) (hk : field? fields k = none)
    (hx : Entries.find? k m = some x) (hy : Entries.find? k n = some y) :
    Entries.find? k out = some (Lattice.joinUnlisted x y) := by
  obtain ⟨out', hout, he⟩ := Lattice.record_join_obj.1 hj
  cases he
  have hat := Lattice.joinAt_of_joinMembers hn hout k
  rw [member_toLattices, hk, hx, hy] at hat
  exact (Except.ok.inj hat).symm

/-- Records of simple lattices to any depth. Values join, in either order alike, whatever their unlisted members hold.
The laws all hold where no two unlisted members are the same but for the signs of their zeros, as where they have no
negative zero. Of two unlisted members that differ, the one whose text sorts last stays. -/
theorem record_laws (hf : ∀ k s, (k, s) ∈ fields → s.Plain) :
    (toLattice (.record name fields)).Commutative (Carrier (.record name fields)) ∧
    (∀ free, Json.Discrete free →
      (toLattice (.record name fields)).Lawful (CarrierOver free (.record name fields))) ∧
    Json.Discrete (fun v => v.normal = v) ∧
    ∀ m n, Carrier (.record name fields) (.obj m) → Carrier (.record name fields) (.obj n) →
      ∃ out, (toLattice (.record name fields)).join (.obj m) (.obj n) = .ok (.obj out) ∧
        ∀ k x y, field? fields k = none → Entries.find? k m = some x → Entries.find? k n = some y →
          (x == y) = false → ∃ z, Entries.find? k out = some z ∧ (z = x ∨ z = y) ∧
            x.text ≤ z.text ∧ y.text ≤ z.text ∧ x.text ≠ y.text := by
  have hs : Plain (.record name fields) := .record hf
  refine ⟨hs.commutative, fun free => hs.lawful, Json.discrete_normal, fun m n hm hn => ?_⟩
  obtain ⟨c, hj, -⟩ := hs.commutative.total hm hn
  obtain ⟨out, -, rfl⟩ := Lattice.record_join_obj.1 hj
  refine ⟨out, hj, fun k x y hk hx hy hne => ?_⟩
  obtain ⟨z, rfl, hz⟩ := text_joinUnlisted hne
  cases hn with
  | whole h => cases h
  | obj ho => exact ⟨_, find?_unlisted ho hj hk hx hy, hz⟩

end

/-- Two tallies that agree on no member. -/
theorem record_laws_tally :
    Plain .max ∧ ∃ out,
      (toLattice (.record "tally" [("n", .max)])).join (.obj [("n", .nat 1), ("z", .str "a")])
        (.obj [("n", .nat 2), ("z", .str "b")]) = .ok (.obj out) ∧
      ∃ z, Entries.find? "z" out = some z ∧ Json.text (.str "b") ≤ z.text := by
  have hmax : Plain .max := .simple .max
  have hf : ∀ k s, (k, s) ∈ [("n", LatticeSpec.max)] → s.Plain := by
    simpa using hmax
  have hn (i : Nat) (hi : i ≤ 2) (t : String) :
      Carrier (.record "tally" [("n", .max)]) (.obj [("n", .nat i), ("z", .str t)]) := by
    have hlt : "n" < "z" := by decide
    refine .obj (List.pairwise_pair.2 hlt) (fun k s v hk hv => ?_) fun _ _ _ _ => trivial
    obtain ⟨rfl, rfl⟩ : k = "n" ∧ s = .max := by simpa using mem_of_field? hk
    cases hv
    obtain ⟨x, hx⟩ := Json.Valid.exists_toDouble? (n := .int i) (.int (by simp only [minInt64, maxNat64]; omega))
    exact .whole (.inr ⟨_, x, rfl, hx⟩)
  obtain ⟨-, -, -, hrule⟩ := @record_laws "tally" [("n", .max)] hf
  obtain ⟨out, hj, hz⟩ := hrule _ _ (hn 1 (by decide) "a") (hn 2 (by decide) "b")
  obtain ⟨z, hfind, -, -, hle, -⟩ := hz "z" (.str "a") (.str "b") rfl rfl rfl rfl
  exact ⟨hmax, out, hj, z, hfind, hle⟩

/-- Zero and negative zero are the same and are written differently, with the text of minus one between theirs. So the
first two of these values stay at the negative zero, and the one in the middle outlasts the one at the end. -/
theorem record_join_not_assoc :
    let l := toLattice (.record "r" [])
    let a := Json.obj [("z", .float .negativeZero)]
    let b := Json.obj [("z", .float .zero)]
    let c := Json.obj [("z", .int (-1))]
    ∃ ab x bc y, l.join a b = .ok ab ∧ l.join ab c = .ok x ∧ l.join b c = .ok bc ∧ l.join a bc = .ok y ∧
      l.equivalent x y = false :=
  ⟨_, _, _, _, rfl, rfl, rfl, rfl, rfl⟩

end LatticeSpec

end Patchbay
