import Patchbay.Proofs.Lattice.Builtin

/-! Lattices that guard their carriers: a value outside the carrier is refused, or joining it makes no difference. On
such a lattice it is known of every value, wherever it comes from, when there is nothing left to join. -/

namespace Patchbay.Lattice

variable {l : Lattice} {carrier : Json → Prop}

/-- A lawful lattice that starts in its carrier, and that no join leads out of it. -/
structure Guarded (l : Lattice) (carrier : Json → Prop) : Prop extends l.Lawful carrier where
  bottom_mem : carrier l.bottom
  accepted : ∀ {a v c}, carrier a → l.join a v = .ok c → carrier c ∧ (carrier v ∨ l.equivalent c a = true)

/-- Joining `v` into `a` is refused or makes no difference. -/
def Absorbs (l : Lattice) (a v : Json) : Prop := ∀ c, l.join a v = .ok c → l.equivalent c a = true

namespace Guarded

theorem absorbs_of_mem (h : l.Guarded carrier) {a v : Json} (ha : carrier a)
    (hv : carrier v → h.element v ≤ h.element a) : l.Absorbs a v := by
  intro c hj
  rcases (h.accepted ha hj).2 with hmem | he
  · exact (h.element_le_iff hmem ha hj).1 (hv hmem)
  · exact he

theorem absorbs_null (h : l.Guarded carrier) {a : Json} (ha : carrier a) : l.Absorbs a .null :=
  h.absorbs_of_mem ha fun _ => h.element_null ▸ bot_le

/-- What has been joined in makes no difference a second time. -/
theorem absorbs_of_join (h : l.Guarded carrier) {a v c : Json} (ha : carrier a) (hj : l.join a v = .ok c) :
    l.Absorbs c v := by
  refine h.absorbs_of_mem (h.accepted ha hj).1 fun hv => ?_
  rw [(h.element_join ha hv hj).2]
  exact le_sup_right

theorem le_of_join (h : l.Guarded carrier) {a v c : Json} (ha : carrier a) (hj : l.join a v = .ok c) :
    h.element a ≤ h.element c := by
  obtain ⟨hc, hv | he⟩ := h.accepted ha hj
  · rw [(h.element_join ha hv hj).2]
    exact le_sup_left
  · exact ((h.element_eq_iff hc ha).2 he).ge

/-- What made no difference makes none after a join. -/
theorem absorbs_join (h : l.Guarded carrier) {a v c w : Json} (ha : carrier a) (hj : l.join a v = .ok c)
    (hw : l.Absorbs a w) : l.Absorbs c w := by
  refine h.absorbs_of_mem (h.accepted ha hj).1 fun hmem => ?_
  obtain ⟨d, hd, -⟩ := h.total ha hmem
  exact ((h.element_le_iff hmem ha hd).2 (hw d hd)).trans (h.le_of_join ha hj)

end Guarded

/-! ## The lattices at hand -/

/-- Values outside the carrier may be refused altogether. -/
theorem Lawful.guarded (h : l.Lawful carrier) (hb : carrier l.bottom)
    (hv : ∀ {a v c}, carrier a → l.join a v = .ok c → carrier v) : l.Guarded carrier where
  toLawful := h
  bottom_mem := hb
  accepted ha hj := ⟨(h.element_join ha (hv ha hj) hj).1, .inl (hv ha hj)⟩

theorem numeric_of_join {name : String} {better : Double → Double → Bool} {a v c : Json}
    (hj : (numeric name better).join a v = .ok c) : Numeric v := by
  obtain ⟨_, -, hj⟩ := ok_of_bind hj
  obtain ⟨_, hv, -⟩ := ok_of_bind hj
  exact (numberIn_eq_ok.1 hv).1

theorem max_guarded : max.Guarded Numeric := max_ranked.lawful.guarded (.inl rfl) fun _ => numeric_of_join

theorem min_guarded : min.Guarded Numeric := min_ranked.lawful.guarded (.inl rfl) fun _ => numeric_of_join

theorem setUnion_guarded : setUnion.Guarded Listing :=
  setUnion_ranked.lawful.guarded (.inl rfl) fun _ hj => by
    obtain ⟨_, -, hj⟩ := ok_of_bind hj
    obtain ⟨_, hv, -⟩ := ok_of_bind hj
    exact listing_of_elements_eq_ok hv

theorem disjunction_guarded : disjunction.Guarded Flag where
  toLawful := disjunction_lawful
  bottom_mem := .inl rfl
  accepted {a v c} ha hj := by
    obtain ⟨current, hc, hj⟩ := ok_of_bind hj
    rw [flag_eq_ok ha] at hc
    cases hc
    split at hj
    · -- a current value that is true stays, whatever comes in
      next ht =>
      cases hj
      exact ⟨flag_bool true, .inr (disjunction_equivalent.2 ht.symm)⟩
    · obtain ⟨b, hv, hj⟩ := ok_of_bind hj
      cases hj
      exact ⟨flag_bool b, .inl (flag_of_flag_eq_ok hv)⟩

end Patchbay.Lattice
