import Patchbay.Proofs.Graph.Fit
import Patchbay.Proofs.Graph.Thinning

/-! Which wires are deferred, and what that spares them. The aspects of a wire are looked at where both of its ends land
on gadgets, and nowhere else. -/

namespace Patchbay

/-- Both ends of a wire land on gadgets. -/
def Board.Lands (b : Board) (w : Wire) : Prop :=
  (∃ o, b.landing? w.source = some o) ∧ ∃ o, b.landing? w.target = some o

/-! ## Strands -/

namespace Strand

variable {r : AspectRegistry} {naming : Naming} {w : Wire} {lattice : Option LatticeName} {source target : NodeId}

theorem exists_ofWire_iff : (∃ s, ofWire r naming w lattice source target = .ok s) ↔ w.Fits r := by
  rw [← AspectRegistry.exists_aspectsOn]
  constructor
  · rintro ⟨s, h⟩
    obtain ⟨aspects, haspects, -⟩ := ok_of_bind h
    exact ⟨aspects, haspects⟩
  · rintro ⟨aspects, haspects⟩
    exact ⟨_, bind_eq_ok.2 ⟨aspects, haspects, rfl⟩⟩

theorem aspectsOn_of_ofWire {fault : WireFault} (h : ofWire r naming w lattice source target = .error fault) :
    r.aspectsOn w = .error fault := by
  rcases error_of_bind h with h | ⟨aspects, -, h⟩
  · exact h
  · cases h

end Strand

namespace Board

variable {b : Board} {r : AspectRegistry} {naming : Naming} {g gadgets : Graph} {w : Wire}

theorem strandOf?_of_not_lands (h : ¬ b.Lands w) : b.strandOf? r naming gadgets w = .ok none := by
  unfold strandOf?
  split
  · next o o' ho ho' => exact absurd ⟨⟨o, ho⟩, o', ho'⟩ h
  · rfl

theorem strandOf?_of_lands (h : b.Lands w) (r : AspectRegistry) (naming : Naming) (gadgets : Graph) :
    ∃ lattice source target, b.strandOf? r naming gadgets w =
      ((Strand.ofWire r naming w lattice source target).mapError (.wire w.id)).map some := by
  obtain ⟨⟨o, ho⟩, o', ho'⟩ := h
  simp only [strandOf?, ho, ho']
  exact ⟨_, _, _, rfl⟩

theorem strandOf?_eq_none : b.strandOf? r naming gadgets w = .ok none ↔ ¬ b.Lands w := by
  refine ⟨fun h hw => ?_, strandOf?_of_not_lands⟩
  obtain ⟨lattice, source, target, he⟩ := strandOf?_of_lands hw r naming gadgets
  obtain ⟨s, -, hs⟩ := ok_of_map (he.symm.trans h)
  cases hs

/-- A wire is held up by its aspects only where it lands. -/
theorem exists_strandOf? : (∃ s, b.strandOf? r naming gadgets w = .ok s) ↔ (b.Lands w → w.Fits r) := by
  constructor
  · rintro ⟨s, h⟩ hw
    obtain ⟨lattice, source, target, he⟩ := strandOf?_of_lands hw r naming gadgets
    obtain ⟨s', hs', -⟩ := ok_of_map (he.symm.trans h)
    exact Strand.exists_ofWire_iff.1 ⟨s', ok_of_mapError hs'⟩
  · intro h
    by_cases hw : b.Lands w
    · obtain ⟨lattice, source, target, he⟩ := strandOf?_of_lands hw r naming gadgets
      obtain ⟨s, hs⟩ := Strand.exists_ofWire_iff.2 (h hw)
      exact ⟨some s, by rw [he, hs]; rfl⟩
    · exact ⟨none, strandOf?_of_not_lands hw⟩

theorem fault_of_strandOf? {e : RealizationError} (h : b.strandOf? r naming gadgets w = .error e) :
    b.Lands w ∧ ∃ fault, r.aspectsOn w = .error fault ∧ e = .wire w.id fault := by
  have hw : b.Lands w := by
    by_contra hno
    rw [strandOf?_of_not_lands hno] at h
    cases h
  refine ⟨hw, ?_⟩
  obtain ⟨lattice, source, target, he⟩ := strandOf?_of_lands hw r naming gadgets
  rw [he] at h
  obtain ⟨fault, hfault, rfl⟩ := error_of_mapError (error_of_map h)
  exact ⟨fault, Strand.aspectsOn_of_ofWire hfault, rfl⟩

/-! ## Graphs -/

theorem exists_realize_iff : (∃ g, b.realize r naming = .ok g) ↔
    (∃ nodes, b.gadgetNodes naming = .ok nodes) ∧ ∀ w ∈ b.wires, b.Lands w → w.Fits r := by
  constructor
  · rintro ⟨g, h⟩
    obtain ⟨nodes, hnodes, h⟩ := ok_of_bind h
    obtain ⟨strands, hstrands, -⟩ := ok_of_bind h
    refine ⟨⟨nodes, ok_of_mapError hnodes⟩, fun w hw => ?_⟩
    obtain ⟨_, -, hstrand⟩ := (mem_of_mapM hstrands).2 w hw
    obtain ⟨s, hs, -⟩ := ok_of_bind hstrand
    exact exists_strandOf?.1 ⟨s, hs⟩
  · rintro ⟨⟨nodes, hnodes⟩, h⟩
    obtain ⟨strands, hstrands⟩ := mapM_eq_ok (f := fun w => do
        return (w.id, ← b.strandOf? r naming (nodes.foldl Graph.addNode .empty) w)) fun w hw => by
      obtain ⟨s, hs⟩ := exists_strandOf?.2 (h w hw)
      exact ⟨_, bind_eq_ok.2 ⟨s, hs, rfl⟩⟩
    exact ⟨_, bind_eq_ok.2 ⟨nodes, mapError_eq_ok.2 hnodes, bind_eq_ok.2 ⟨strands, hstrands, rfl⟩⟩⟩

theorem exists_realize (hv : b.validate = .ok ()) :
    (∃ g, b.realize r naming = .ok g) ↔ ∀ w ∈ b.wires, b.Lands w → w.Fits r := by
  rw [exists_realize_iff, and_iff_right (exists_gadgetNodes hv naming)]

/-- A valid board fails to be realized over the aspects of a wire that lands. -/
theorem fault_of_realize (hv : b.validate = .ok ()) {e : RealizationError} (h : b.realize r naming = .error e) :
    ∃ w ∈ b.wires, b.Lands w ∧ ∃ fault, r.aspectsOn w = .error fault ∧ e = .wire w.id fault := by
  obtain ⟨nodes, hnodes⟩ := exists_gadgetNodes hv naming
  rcases error_of_bind h with h | ⟨_, -, h⟩
  · rw [hnodes] at h
    cases h
  rcases error_of_bind h with h | ⟨strands, -, h⟩
  · obtain ⟨w, hw, h⟩ := error_of_mapM h
    rcases error_of_bind h with h | ⟨s, -, h⟩
    · exact ⟨w, hw, fault_of_strandOf? h⟩
    · cases h
  · cases h

theorem contains_deferred_foldl_placeWire {strands : List (WireId × Option Strand)} {id : WireId} :
    (strands.foldl Graph.placeWire g).deferred.contains id = true ↔
      (id, none) ∈ strands ∨ g.deferred.contains id = true := by
  induction strands generalizing g with
  | nil => simp
  | cons x rest ih =>
    rw [List.foldl_cons, ih, List.mem_cons, or_comm (a := (id, none) = x), or_assoc]
    refine or_congr_right ?_
    obtain ⟨wire, _ | s⟩ := x
    · rw [Graph.placeWire, Names.contains_add, Prod.mk.injEq, and_iff_left rfl]
    · simp [Graph.placeWire, Graph.addStrand_eq]

/-- The wires that are deferred are those of which an end lands on nothing. -/
theorem contains_deferred_iff (h : b.realize r naming = .ok g) {id : WireId} :
    g.deferred.contains id = true ↔ ∃ w ∈ b.wires, w.id = id ∧ ¬ b.Lands w := by
  obtain ⟨nodes, -, h⟩ := ok_of_bind h
  obtain ⟨strands, hstrands, h⟩ := ok_of_bind h
  cases h
  obtain ⟨hto, hof⟩ := mem_of_mapM hstrands
  have hnone : (nodes.foldl Graph.addNode .empty).deferred.contains id = false := by
    rw [Graph.foldl_addNode]
    rfl
  rw [contains_deferred_foldl_placeWire, hnone, or_iff_left Bool.false_ne_true]
  constructor
  · intro hmem
    obtain ⟨w, hw, hstep⟩ := hto _ hmem
    obtain ⟨s, hs, he⟩ := ok_of_bind hstep
    obtain ⟨hid, rfl⟩ := Prod.mk.inj (Except.ok.inj he)
    exact ⟨w, hw, hid, strandOf?_eq_none.1 hs⟩
  · rintro ⟨w, hw, rfl, hno⟩
    obtain ⟨y, hy, hstep⟩ := hof w hw
    obtain ⟨s, hs, he⟩ := ok_of_bind hstep
    rw [strandOf?_of_not_lands hno] at hs
    cases hs
    cases he
    exact hy

/-- A wire is deferred while one of its ends lands on nothing. -/
theorem deferred_iff (hv : b.validate = .ok ()) (h : b.realize r naming = .ok g) (hw : w ∈ b.wires) :
    g.deferred.contains w.id = true ↔ ¬ b.Lands w := by
  rw [contains_deferred_iff h]
  constructor
  · rintro ⟨w', hw', hid, hno⟩
    -- the wire that is noted as deferred is this one, for no other has its identity
    rwa [← List.inj_on_of_nodup_map (checkWires_eq_ok.1 (validate_eq_ok.1 hv).2.2).2 hw' hw hid]
  · exact fun hno => ⟨w, hw, rfl, hno⟩

end Board

end Patchbay
