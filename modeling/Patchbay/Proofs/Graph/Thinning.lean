import Patchbay.Proofs.Board.Thinning
import Patchbay.Proofs.Graph.Anchor

/-! The graphs of boards with parts taken away. They can be told as before, and come to no node that was not there. -/

namespace Patchbay

namespace Graph

/-- Wires bring the shims of their strands, and take no node away. -/
theorem contains_foldl_placeWire {strands : List (WireId × Option Strand)} {g : Graph} {id : NodeId} :
    (strands.foldl placeWire g).nodes.contains id = true ↔
      g.nodes.contains id = true ∨ ∃ x ∈ strands, ∃ s, x.2 = some s ∧ id ∈ s.shims.map (·.id) := by
  induction strands generalizing g with
  | nil => simp
  | cons x rest ih =>
    rw [List.foldl_cons, ih, List.exists_mem_cons_iff, ← or_assoc]
    refine or_congr_left ?_
    obtain ⟨wire, strand⟩ := x
    cases strand with
    | none => simp [placeWire]
    | some s =>
      rw [placeWire, addStrand_eq, Dict.contains_foldl_insert (fun n : Node => n.id), or_comm]
      simp

end Graph

/-- A wire has a strand where its aspects can be told, and the identities of the shims depend on nothing else. -/
theorem Strand.exists_ofWire {r : AspectRegistry} {naming : Naming} {w : Wire} {lattice : Option LatticeName}
    {source target : NodeId} {s : Strand} (h : ofWire r naming w lattice source target = .ok s)
    (lattice' : Option LatticeName) (source' target' : NodeId) :
    ∃ s', ofWire r naming w lattice' source' target' = .ok s' ∧ s'.shims.map (·.id) = s.shims.map (·.id) := by
  obtain ⟨aspects, haspects, h⟩ := ok_of_bind h
  cases h
  refine ⟨_, bind_eq_ok.2 ⟨aspects, haspects, rfl⟩, ?_⟩
  simp only [List.map_filterMap]
  refine List.filterMap_congr fun x _ => ?_
  unfold Manifest.shimOn?
  split
  · rfl
  · simp only [Option.map_map, Function.comp_def]

namespace Board

variable {b b' : Board} {r : AspectRegistry} {naming : Naming} {g g' : Graph}

theorem landing?_of_seated {e : Endpoint} {slot : SlotName} {o : Occupant} (hg : e.gadget = some o.id)
    (ho : b.Seated slot o) : ∃ o', b.landing? e = some o' := by
  obtain ⟨_, _, o', -, -, -, hfound⟩ := seat_of_find? ho
  exact ⟨o', by rw [landing?, hg]; exact hfound⟩

/-- An endpoint that still lands on a gadget has done so before, be it on another one. -/
theorem Thins.landing? (h : b.Thins b') {e : Endpoint} {o : Occupant} (ho : b'.landing? e = some o) :
    ∃ o', b.landing? e = some o' := by
  cases hg : e.gadget with
  | some gadget =>
    have hfound : b'.occupant? gadget = some o := by simpa only [Board.landing?, hg] using ho
    obtain ⟨⟨slot, i, o'⟩, hf, -⟩ := Option.map_eq_some_iff.1 hfound
    have hid : o'.id = gadget := by simpa using List.find?_some hf
    have hseat : b'.Seated slot o' := seated_of_mem_seats (List.mem_of_find?_eq_some hf)
    exact landing?_of_seated (hg.trans (congrArg some hid.symm)) (h.seated hseat)
  | none =>
    unfold Board.landing? at ho ⊢
    rw [hg] at ho ⊢
    split at ho
    · next he => cases he
    · next slot _ _ =>
      have hstood : b.Seated slot o := h.seated (mem_getD_occupants.1 (List.mem_of_mem_head? ho))
      exact ⟨_, List.head?_eq_some_head (List.ne_nil_of_mem (mem_getD_occupants.2 hstood))⟩
    · cases ho

/-- A strand that there still is has the shims that it had. -/
theorem Thins.strandOf? (h : b.Thins b') {gadgets gadgets' : Graph} {w : Wire} {x : Option Strand}
    (hx : b.strandOf? r naming gadgets w = .ok x) : ∃ x', b'.strandOf? r naming gadgets' w = .ok x' ∧
      ∀ s', x' = some s' → ∃ s, x = some s ∧ s'.shims.map (·.id) = s.shims.map (·.id) := by
  unfold Board.strandOf?
  split
  · next o o' ho ho' =>
    obtain ⟨p, hp⟩ := h.landing? ho
    obtain ⟨p', hp'⟩ := h.landing? ho'
    simp only [Board.strandOf?, hp, hp'] at hx
    obtain ⟨s, hs, hx⟩ := ok_of_bind hx
    cases hx
    obtain ⟨s', hs', hshims⟩ := Strand.exists_ofWire (ok_of_mapError hs)
      (gadgets'.latticeOf? (naming.gadgetNode o) w.source.pin) (naming.gadgetNode o) (naming.gadgetNode o')
    refine ⟨some s', bind_eq_ok.2 ⟨s', mapError_eq_ok.2 hs', rfl⟩, fun t ht => ⟨s, rfl, ?_⟩⟩
    cases ht
    exact hshims
  · exact ⟨none, rfl, nofun⟩

theorem exists_gadgetNodes (hv : b.validate = .ok ()) (naming : Naming) : ∃ nodes, b.gadgetNodes naming = .ok nodes := by
  have hslots := ok_of_forM (validate_eq_ok.1 hv).1
  have hlists : ∀ seated ∈ b.occupants.entries, ∃ list, b.nodesIn naming seated = .ok list := by
    intro seated hs
    obtain ⟨slot, hslot⟩ := Dict.contains_iff.1
      ((placed_of_validate hv).declared _ _ (Dict.get?_eq_some_iff.2 hs))
    have hpinout := hslots (seated.1, slot) (Dict.get?_eq_some_iff.1 hslot)
    simp only at hpinout
    split at hpinout
    · next hp =>
      obtain ⟨p, hp⟩ := Dict.contains_iff.1 hp
      simp only [nodesIn, hslot, hp]
      exact ⟨_, rfl⟩
    · cases hpinout
  obtain ⟨lists, hm⟩ := mapM_eq_ok hlists
  exact ⟨_, bind_eq_ok.2 ⟨lists, hm, rfl⟩⟩

theorem Thins.isSeat (h : b.Thins b') {n : Node} (hs : b'.IsSeat naming n) : b.IsSeat naming n := by
  obtain ⟨slot, s, p, o, hslot, hp, ho, rfl⟩ := hs
  exact ⟨slot, s, p, o, h.slots_eq ▸ hslot, h.pinouts_eq ▸ hp, h.seated ho, rfl⟩

/-- A board with parts taken away can be realized, and all nodes of its graph were there before. -/
theorem Thins.realize (h : b.Thins b') (hn : naming.Faithful) (hv : b.validate = .ok ())
    (hg : b.realize r naming = .ok g) :
    ∃ g', b'.realize r naming = .ok g' ∧ ∀ id, g'.nodes.contains id = true → g.nodes.contains id = true := by
  obtain ⟨nodes', hnodes'⟩ := exists_gadgetNodes (h.validate hv) naming
  have hrealized := hg
  obtain ⟨nodes, hnodes, hg⟩ := ok_of_bind hg
  obtain ⟨strands, hstrands, hg⟩ := ok_of_bind hg
  cases hg
  have hall : ∀ w ∈ b'.wires, ∃ y, (do
      return (w.id, ← b'.strandOf? r naming (nodes'.foldl Graph.addNode .empty) w) :
      Except RealizationError (WireId × Option Strand)) = .ok y := by
    intro w hw
    obtain ⟨_, -, hw⟩ := (mem_of_mapM hstrands).2 w (h.wires.subset hw)
    obtain ⟨x, hx, -⟩ := ok_of_bind hw
    obtain ⟨x', hx', -⟩ := h.strandOf? hx
    exact ⟨_, bind_eq_ok.2 ⟨x', hx', rfl⟩⟩
  obtain ⟨strands', hstrands'⟩ := mapM_eq_ok hall
  refine ⟨_, bind_eq_ok.2 ⟨nodes', mapError_eq_ok.2 hnodes', bind_eq_ok.2 ⟨strands', hstrands', rfl⟩⟩, fun id hid => ?_⟩
  rw [Graph.contains_foldl_placeWire] at hid ⊢
  rcases hid with hid | ⟨y, hy, s', hs', hid⟩
  · rw [Graph.foldl_addNode, Dict.contains_foldl_insert (fun n : Node => n.id)] at hid
    obtain ⟨n, hn', rfl⟩ := List.mem_map.1 (hid.resolve_right Bool.false_ne_true)
    have hseat := h.isSeat ((mem_gadgetNodes hnodes').1 n hn')
    exact .inl (Dict.contains_of_get? (get?_gadgets hn hv (ok_of_mapError hnodes) hseat).2)
  · obtain ⟨w, hw, hy⟩ := (mem_of_mapM hstrands').1 y hy
    obtain ⟨x', hx', hy⟩ := ok_of_bind hy
    cases hy
    obtain ⟨z, hz, hw⟩ := (mem_of_mapM hstrands).2 w (h.wires.subset hw)
    obtain ⟨x, hx, hw⟩ := ok_of_bind hw
    cases hw
    obtain ⟨x'', hx'', hshims⟩ := h.strandOf? hx
    rw [hx'] at hx''
    cases hx''
    obtain ⟨s, rfl, hids⟩ := hshims s' hs'
    exact .inr ⟨_, hz, s, rfl, hids ▸ hid⟩

end Board

end Patchbay
