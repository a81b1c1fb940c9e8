import Patchbay.Proofs.Lattice.Guard
import Patchbay.Proofs.Lattice.Spec
import Mathlib.Data.List.Sort

/-! Laws of the simple lattices: which values they join, and that joining many of them gives the same element in
whatever order they come. -/

namespace Patchbay

namespace Lattice

variable {l : Lattice} {carrier : Json → Prop}

/-! ## Joining many values -/

theorem Lawful.exists_foldlM (h : l.Lawful carrier) {a : Json} {vs : List Json} (ha : carrier a)
    (hvs : ∀ v ∈ vs, carrier v) :
    ∃ c, vs.foldlM l.join a = .ok c ∧ carrier c ∧ h.element c = vs.foldl (fun x v => x ⊔ h.element v) (h.element a) := by
  induction vs generalizing a with
  | nil => exact ⟨a, rfl, ha, rfl⟩
  | cons v rest ih =>
    obtain ⟨b, hj, -⟩ := h.total ha (hvs v List.mem_cons_self)
    obtain ⟨hb, he⟩ := h.element_join ha (hvs v List.mem_cons_self) hj
    obtain ⟨c, hc, hmem, hfold⟩ := ih hb fun w hw => hvs w (List.mem_cons_of_mem v hw)
    refine ⟨c, ?_, hmem, ?_⟩
    · rw [List.foldlM_cons, hj]
      exact hc
    · rw [hfold, he]
      rfl

theorem Lawful.foldl_sup_perm (h : l.Lawful carrier) {vs ws : List Json} (hp : vs.Perm ws) (x : h.Element) :
    vs.foldl (fun x v => x ⊔ h.element v) x = ws.foldl (fun x v => x ⊔ h.element v) x :=
  hp.foldl_eq' (fun v _ w _ y => sup_right_comm y (h.element v) (h.element w)) x

/-- Values joined one after the other give the same element in any order. -/
theorem Lawful.equivalent_of_perm (h : l.Lawful carrier) {a b : Json} {vs ws : List Json}
    (hp : (a :: vs).Perm (b :: ws)) (hvs : ∀ v ∈ a :: vs, carrier v) :
    ∃ c d, vs.foldlM l.join a = .ok c ∧ ws.foldlM l.join b = .ok d ∧ carrier c ∧ carrier d ∧
      l.equivalent c d = true := by
  obtain ⟨ha, hvs'⟩ := List.forall_mem_cons.1 hvs
  obtain ⟨hb, hws'⟩ := List.forall_mem_cons.1 fun w hw => hvs w (hp.mem_iff.2 hw)
  obtain ⟨c, hc, hmc, hec⟩ := h.exists_foldlM ha hvs'
  obtain ⟨d, hd, hmd, hed⟩ := h.exists_foldlM hb hws'
  refine ⟨c, d, hc, hd, hmc, hmd, (h.element_eq_iff hmc hmd).1 ?_⟩
  have hperm := h.foldl_sup_perm hp ⊥
  simp only [List.foldl_cons, bot_sup_eq] at hperm
  rw [hec, hed, hperm]

/-- A value that others were joined into is the outcome of a join. -/
theorem exists_join_of_foldlM {a c : Json} {vs : List Json} (hne : vs ≠ []) (h : vs.foldlM l.join a = .ok c) :
    ∃ b v, l.join b v = .ok c := by
  induction vs generalizing a with
  | nil => exact absurd rfl hne
  | cons v rest ih =>
    rw [List.foldlM_cons] at h
    obtain ⟨b, hj, h⟩ := ok_of_bind h
    cases rest with
    | nil =>
      cases h
      exact ⟨a, v, hj⟩
    | cons w rest => exact ih (List.cons_ne_nil w rest) h

/-! ## Sets in the order of their texts -/

/-- The items of an array stand in the order of their texts, each text once. -/
def Ascending (v : Json) : Prop := ∃ items, v = .arr items ∧ (items.map Json.text).Pairwise (· < ·)

theorem ascending_of_setUnion {a b c : Json} (h : setUnion.join a b = .ok c) : Ascending c := by
  obtain ⟨d, hd, h⟩ := ok_of_bind h
  obtain ⟨e, he, h⟩ := ok_of_bind h
  cases h
  obtain ⟨d', hd', htd, -⟩ := exists_elements (listing_of_elements_eq_ok hd)
  obtain ⟨e', he', hte, -⟩ := exists_elements (listing_of_elements_eq_ok he)
  cases hd.symm.trans hd'
  cases he.symm.trans he'
  refine ⟨_, rfl, ?_⟩
  rw [(htd.union hte).map_text]
  exact (d.union e).ordered

/-- Equivalent arrays list the same texts, each in its place once both stand in order. -/
theorem texts_eq_of_ascending {xs ys : List Json} (hx : Ascending (.arr xs)) (hy : Ascending (.arr ys))
    (he : setUnion.equivalent (.arr xs) (.arr ys) = true) : xs.map Json.text = ys.map Json.text := by
  obtain ⟨_, ⟨⟩, hx⟩ := hx
  obtain ⟨_, ⟨⟩, hy⟩ := hy
  have hset : texts (.arr xs) = texts (.arr ys) :=
    (setUnion_ranked.equivalent_iff (.inr ⟨xs, rfl⟩) (.inr ⟨ys, rfl⟩)).1 he
  exact hx.eq_of_mem_iff hy fun t => Set.ext_iff.1 hset t

theorem setUnion_foldlM_perm {a b : Json} {vs ws : List Json} (hp : (a :: vs).Perm (b :: ws)) (hne : vs ≠ [])
    (hvs : ∀ v ∈ a :: vs, Listing v) :
    ∃ xs ys, vs.foldlM setUnion.join a = .ok (.arr xs) ∧ ws.foldlM setUnion.join b = .ok (.arr ys) ∧
      xs.map Json.text = ys.map Json.text := by
  obtain ⟨c, d, hc, hd, -, -, he⟩ := setUnion_ranked.lawful.equivalent_of_perm hp hvs
  have hne' : ws ≠ [] := by
    rintro rfl
    exact hne (List.eq_nil_of_length_eq_zero (Nat.succ.inj hp.length_eq))
  obtain ⟨_, _, hj⟩ := exists_join_of_foldlM hne hc
  obtain ⟨_, _, hj'⟩ := exists_join_of_foldlM hne' hd
  obtain ⟨xs, rfl, hxs⟩ := ascending_of_setUnion hj
  obtain ⟨ys, rfl, hys⟩ := ascending_of_setUnion hj'
  exact ⟨xs, ys, hc, hd, texts_eq_of_ascending ⟨xs, rfl, hxs⟩ ⟨ys, rfl, hys⟩ he⟩

end Lattice

namespace LatticeSpec

variable {s : LatticeSpec} {a b c v : Json}

/-! ## What the simple lattices join -/

/-- The type of a lattice's values other than null. -/
def typeName : LatticeSpec → String
  | .max => "number"
  | .min => "number"
  | .setUnion => "array"
  | .disjunction => "boolean"
  | .append => "array"
  | .record _ _ => "object"

theorem numeric_iff (hv : v.Valid) : Lattice.Numeric v ↔ v = .null ∨ v.typeName = "number" := by
  constructor
  · rintro (rfl | ⟨n, x, rfl, -⟩)
    · exact .inl rfl
    · exact .inr rfl
  · rintro (rfl | hn)
    · exact .inl rfl
    · cases v with
      | num n =>
        obtain ⟨x, hx⟩ := hv.exists_toDouble?
        exact .inr ⟨n, x, rfl, hx⟩
      | _ => simp [Json.typeName] at hn

/-- The carrier of a simple lattice is null and a type. -/
theorem Simple.carrier_iff (hs : s.Simple) (hv : v.Valid) : s.Carrier v ↔ v = .null ∨ v.typeName = s.typeName := by
  rw [Carrier, hs.carrierOver_eq]
  cases hs with
  | max => exact numeric_iff hv
  | min => exact numeric_iff hv
  | setUnion => cases v <;> simp [wholeCarrier, Lattice.Listing, Json.typeName, typeName]
  | disjunction => cases v <;> simp [wholeCarrier, Lattice.Flag, Json.typeName, typeName]

theorem numeric_join_ok_iff {name : String} {better : Double → Double → Bool} :
    (∃ c, (Lattice.numeric name better).join a b = .ok c) ↔ Lattice.Numeric a ∧ Lattice.Numeric b := by
  constructor
  · rintro ⟨c, hj⟩
    obtain ⟨x, hx, -⟩ := ok_of_bind hj
    exact ⟨(Lattice.numberIn_eq_ok.1 hx).1, Lattice.numeric_of_join hj⟩
  · rintro ⟨ha, hb⟩
    simp only [Lattice.numeric, Lattice.numberIn_eq_ok.2 ⟨ha, rfl⟩, Lattice.numberIn_eq_ok.2 ⟨hb, rfl⟩, bind, Except.bind]
    exact ⟨_, rfl⟩

theorem setUnion_join_ok_iff :
    (∃ c, Lattice.setUnion.join a b = .ok c) ↔ Lattice.Listing a ∧ Lattice.Listing b := by
  constructor
  · rintro ⟨c, hj⟩
    obtain ⟨d, hd, hj⟩ := ok_of_bind hj
    obtain ⟨e, he, -⟩ := ok_of_bind hj
    exact ⟨Lattice.listing_of_elements_eq_ok hd, Lattice.listing_of_elements_eq_ok he⟩
  · rintro ⟨ha, hb⟩
    obtain ⟨c, hj, -⟩ := Lattice.setUnion_ranked.join ha hb
    exact ⟨c, hj⟩

theorem disjunction_join_ok_iff :
    (∃ c, Lattice.disjunction.join a b = .ok c) ↔ Lattice.Flag a ∧ (Lattice.Flag b ∨ a = .bool true) := by
  constructor
  · rintro ⟨c, hj⟩
    obtain ⟨x, hx, hj⟩ := ok_of_bind hj
    have ha := Lattice.flag_of_flag_eq_ok hx
    rw [Lattice.flag_eq_ok ha] at hx
    cases hx
    refine ⟨ha, ?_⟩
    split at hj
    · next ht =>
      rcases ha with rfl | ⟨x, rfl⟩
      · cases ht
      · exact .inr (congrArg Json.bool ht)
    · obtain ⟨y, hy, -⟩ := ok_of_bind hj
      exact .inl (Lattice.flag_of_flag_eq_ok hy)
  · rintro ⟨ha, hb | rfl⟩
    · exact ⟨_, Lattice.disjunction_join ha hb⟩
    · exact ⟨.bool true, rfl⟩

/-- A simple lattice joins the values of its carrier and refuses all others, but that a disjunction which is true
already takes anything. -/
theorem Simple.join_ok_iff (hs : s.Simple) :
    (∃ c, s.toLattice.join a b = .ok c) ↔
      s.Carrier a ∧ (s.Carrier b ∨ (s = .disjunction ∧ a = .bool true)) := by
  rw [Carrier, hs.carrierOver_eq]
  cases hs with
  | max => simpa [wholeCarrier, toLattice, Lattice.max] using numeric_join_ok_iff
  | min => simpa [wholeCarrier, toLattice, Lattice.min] using numeric_join_ok_iff
  | setUnion => simpa [wholeCarrier, toLattice] using setUnion_join_ok_iff
  | disjunction => simpa [wholeCarrier, toLattice] using disjunction_join_ok_iff

theorem Simple.guarded (hs : s.Simple) : s.toLattice.Guarded s.Carrier := by
  rw [Carrier, hs.carrierOver_eq]
  cases hs with
  | max => exact Lattice.max_guarded
  | min => exact Lattice.min_guarded
  | setUnion => exact Lattice.setUnion_guarded
  | disjunction => exact Lattice.disjunction_guarded

theorem Simple.carrier_join (hs : s.Simple) (h : s.toLattice.join a b = .ok c) : s.Carrier c :=
  (hs.guarded.accepted (hs.join_ok_iff.1 ⟨c, h⟩).1 h).1

/-- The simple lattices: their carriers, what they join, the laws, and the order in which sets stand. -/
theorem simple_laws (hs : s.Simple) :
    (∀ v, v.Valid → (s.Carrier v ↔ v = .null ∨ v.typeName = s.typeName)) ∧
    (∀ a b, (∃ c, s.toLattice.join a b = .ok c) ↔
      s.Carrier a ∧ (s.Carrier b ∨ (s = .disjunction ∧ a = .bool true))) ∧
    (∀ a b c, s.toLattice.join a b = .ok c → s.Carrier c) ∧
    s.toLattice.bottom = .null ∧
    s.toLattice.Lawful s.Carrier ∧
    (s = .setUnion → (∀ a b c, s.toLattice.join a b = .ok c → Lattice.Ascending c) ∧
      ∀ a b vs ws, (a :: vs).Perm (b :: ws) → vs ≠ [] → (∀ v ∈ a :: vs, s.Carrier v) →
        ∃ xs ys, vs.foldlM s.toLattice.join a = .ok (.arr xs) ∧ ws.foldlM s.toLattice.join b = .ok (.arr ys) ∧
          xs.map Json.text = ys.map Json.text) := by
  refine ⟨fun v => hs.carrier_iff, fun a b => hs.join_ok_iff, fun a b c => hs.carrier_join, ?_, hs.lawful, ?_⟩
  · cases hs <;> rfl
  · rintro rfl
    refine ⟨fun a b c => Lattice.ascending_of_setUnion, fun a b vs ws hp hne hvs => ?_⟩
    rw [Carrier, hs.carrierOver_eq] at hvs
    exact Lattice.setUnion_foldlM_perm hp hne hvs

/-- Two arrays as sets, joined either way. -/
theorem simple_laws_pair :
    Simple .setUnion ∧ ∃ xs ys, [Json.arr [.nat 2, .nat 1]].foldlM Lattice.setUnion.join (.arr [.nat 3]) = .ok (.arr xs) ∧
      [Json.arr [.nat 3]].foldlM Lattice.setUnion.join (.arr [.nat 2, .nat 1]) = .ok (.arr ys) ∧
      xs.map Json.text = ys.map Json.text := by
  refine ⟨.setUnion, ((simple_laws .setUnion).2.2.2.2.2 rfl).2 _ _ _ _ (.swap _ _ _) (List.cons_ne_nil _ _) ?_⟩
  rw [List.forall_mem_cons, List.forall_mem_singleton]
  exact ⟨.whole (.inr ⟨_, rfl⟩), .whole (.inr ⟨_, rfl⟩)⟩

/-- A disjunction that is true does not look at what comes in, and takes a string. It refuses the string while it is
false, and as the current value. -/
theorem disjunction_takes_string :
    Lattice.disjunction.join (.bool true) (.str "x") = .ok (.bool true) ∧
    ¬Carrier .disjunction (.str "x") ∧
    Lattice.disjunction.join (.bool false) (.str "x") = .error (.typeMismatch "or" "string") ∧
    Lattice.disjunction.join (.str "x") (.bool true) = .error (.typeMismatch "or" "string") := by
  refine ⟨rfl, fun h => ?_, rfl, rfl⟩
  cases h with
  | whole h => rcases h with h | ⟨b, h⟩ <;> cases h

end LatticeSpec

end Patchbay
