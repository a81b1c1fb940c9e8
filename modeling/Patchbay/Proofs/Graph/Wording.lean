import Patchbay.Proofs.Graph.Contents
import Mathlib.Algebra.Order.BigOperators.Group.List

/-! The words that identities are condensed from while a board is realized. What a naming makes of other words leaves no
mark on the graph, so that one which tells these apart can be taken for one that tells all words apart. -/

namespace Patchbay

namespace Naming

variable {n n' : Naming} {words words' : List (List String)}

/-- No two of the words are condensed to one digest. -/
def TellsApart (n : Naming) (words : List (List String)) : Prop :=
  ∀ ps ∈ words, ∀ qs ∈ words, n.digest ps = n.digest qs → ps = qs

instance decidableTellsApart (n : Naming) (words : List (List String)) : Decidable (n.TellsApart words) :=
  inferInstanceAs (Decidable (∀ ps ∈ words, ∀ qs ∈ words, n.digest ps = n.digest qs → ps = qs))

/-- Each of the words has the same digest in both namings. -/
def AgreesOn (n n' : Naming) (words : List (List String)) : Prop := ∀ ps ∈ words, n'.digest ps = n.digest ps

theorem AgreesOn.mono (h : n.AgreesOn n' words) (hsub : words' ⊆ words) : n.AgreesOn n' words' :=
  fun ps hps => h ps (hsub hps)

theorem AgreesOn.identify_eq (h : n.AgreesOn n' words) {ps : List String} (hps : ps ∈ words) (kind : String) :
    n'.identify kind ps = n.identify kind ps := by
  rw [identify, identify, h ps hps]

/-- A length that no digest of the words comes to. -/
def beyond (n : Naming) (words : List (List String)) : Nat := (words.map fun ps => (n.digest ps).length).sum + 1

theorem length_lt_beyond {ps : List String} (h : ps ∈ words) : (n.digest ps).length < n.beyond words :=
  Nat.lt_succ_of_le (List.single_le_sum (fun _ _ => Nat.zero_le _) _ (List.mem_map.2 ⟨ps, h, rfl⟩))

/-- The naming as it is on the words, and one that spells out all others at a length beyond the digests of these. -/
def outside (n : Naming) (words : List (List String)) : Naming where
  digest parts :=
    if parts ∈ words then n.digest parts
    else .ofList (List.replicate (n.beyond words) '-' ++ parts.flatMap spell)
  undotted parts h := by
    split at h
    · exact n.undotted parts h
    · rw [String.toList_ofList] at h
      rcases List.mem_append.1 h with h | h
      · exact absurd (List.eq_of_mem_replicate h) (by decide)
      · obtain ⟨part, -, hp⟩ := List.mem_flatMap.1 h
        exact point_notMem_spell part hp

theorem agreesOn_outside (n : Naming) (words : List (List String)) : n.AgreesOn (n.outside words) words :=
  fun _ hps => if_pos hps

theorem TellsApart.faithful_outside (h : n.TellsApart words) : (n.outside words).Faithful := by
  intro ps qs hdigest
  have hlength {ps qs : List String} (hps : ps ∈ words) :
      n.digest ps ≠ .ofList (List.replicate (n.beyond words) '-' ++ qs.flatMap spell) := by
    intro he
    have hlt := length_lt_beyond (n := n) hps
    rw [he, String.length_ofList, List.length_append, List.length_replicate] at hlt
    exact absurd hlt (Nat.not_lt.2 (Nat.le_add_right _ _))
  simp only [outside] at hdigest
  split at hdigest <;> split at hdigest
  · next hps hqs => exact h ps hps qs hqs hdigest
  · next hps _ => exact absurd hdigest (hlength hps)
  · next hqs => exact absurd hdigest.symm (hlength hqs)
  · have hspelled := List.append_cancel_left (String.ofList_injective hdigest)
    exact faithful_spelled (congrArg String.ofList hspelled)

/-- A naming that tells the words apart does with them what one does that tells all words apart. -/
theorem TellsApart.exists_faithful (h : n.TellsApart words) : ∃ n' : Naming, n'.Faithful ∧ n.AgreesOn n' words :=
  ⟨n.outside words, h.faithful_outside, n.agreesOn_outside words⟩

end Naming

/-! ## The words of a board -/

/-- The words for the node of a gadget. -/
def Occupant.words (o : Occupant) : List String := ["gadget", o.id, o.template, o.params.text]

def Edge.words (e : Edge) : List String := [e.wire, e.source, e.sourcePin, e.target, e.targetPin]

/-- The words for the shim of an aspect on a wire, if it puts one there. -/
def Manifest.words? (m : Manifest) (w : Wire) (aspect : AspectId) : Option (List String) :=
  match m.kind with
  | .controlPlane => none
  | .dataPlane .. => (m.combine? (w.instancesOf aspect)).map fun c => ["shim", w.id, aspect, c.1.text]

/-- The words for the shims and edges that a wire comes to between two nodes. -/
def Strand.words (r : AspectRegistry) (naming : Naming) (w : Wire) (source target : NodeId) : List (List String) :=
  match r.aspectsOn w with
  | .error _ => []
  | .ok aspects =>
    let shims := aspects.filterMap fun x => x.2.words? w x.1
    shims ++ (edgesAlong naming w.id ∅ ⟨source, w.source.pin⟩ (shims.map (naming.identify "n_"))
      ⟨target, w.target.pin⟩).map Edge.words

namespace Board

def wireWords (b : Board) (r : AspectRegistry) (naming : Naming) (w : Wire) : List (List String) :=
  match b.landing? w.source, b.landing? w.target with
  | some source, some target => Strand.words r naming w (naming.gadgetNode source) (naming.gadgetNode target)
  | _, _ => []

/-- All words that are condensed while a board is realized. -/
def words (b : Board) (r : AspectRegistry) (naming : Naming) : List (List String) :=
  b.seats.map (fun x => x.2.2.words) ++ b.wires.flatMap (b.wireWords r naming)

end Board

/-! ## Graphs under namings that agree -/

variable {naming naming' : Naming} {r : AspectRegistry} {w : Wire}

theorem Manifest.map_id_shimOn?_eq (m : Manifest) (naming : Naming) (w : Wire) (lattice : Option LatticeName)
    (aspect : AspectId) : (m.shimOn? naming w lattice aspect).map (·.id) =
      (m.words? w aspect).map (naming.identify "n_") := by
  unfold shimOn? words?
  cases m.kind with
  | controlPlane => rfl
  | dataPlane joinPoint template =>
    rw [Option.map_map, Option.map_map]
    rfl

theorem Manifest.shimOn?_congr {m : Manifest} {lattice : Option LatticeName} {aspect : AspectId}
    (h : ∀ ps ∈ m.words? w aspect, naming'.identify "n_" ps = naming.identify "n_" ps) :
    m.shimOn? naming' w lattice aspect = m.shimOn? naming w lattice aspect := by
  unfold words? at h
  unfold shimOn?
  cases hk : m.kind with
  | controlPlane => rfl
  | dataPlane joinPoint template =>
    rw [hk] at h
    refine Option.map_congr fun c hc => ?_
    have hid : naming'.shimNode w.id aspect c.1 = naming.shimNode w.id aspect c.1 :=
      h _ (Option.map_eq_some_iff.2 ⟨c, hc, rfl⟩)
    simp only [hid]

namespace Strand

theorem edgesAlong_congr {wire : WireId} (tags : Names) {tags' : Names} {source target : NodePin} {shims : List NodeId}
    (h : ∀ e ∈ edgesAlong naming wire tags' source shims target,
      naming'.identify "e_" e.words = naming.identify "e_" e.words) :
    edgesAlong naming' wire tags source shims target = edgesAlong naming wire tags source shims target := by
  induction shims generalizing source with
  | nil =>
    have hid : naming'.edge wire source.node source.pin target.node target.pin =
        naming.edge wire source.node source.pin target.node target.pin := h _ (List.mem_singleton_self _)
    simp only [edgesAlong, hid]
  | cons shim rest ih =>
    have hid : naming'.edge wire source.node source.pin shim "in" = naming.edge wire source.node source.pin shim "in" :=
      h _ List.mem_cons_self
    simp only [edgesAlong, hid, ih fun e he => h e (List.mem_cons_of_mem _ he)]

theorem ofWire_congr {lattice : Option LatticeName} {source target : NodeId}
    (h : naming.AgreesOn naming' (words r naming w source target)) :
    ofWire r naming' w lattice source target = ofWire r naming w lattice source target := by
  unfold words at h
  unfold ofWire
  cases haspects : r.aspectsOn w with
  | error fault => rfl
  | ok aspects =>
    rw [haspects] at h
    have hshims : (aspects.filterMap fun x => x.2.shimOn? naming' w lattice x.1) =
        aspects.filterMap fun x => x.2.shimOn? naming w lattice x.1 :=
      List.filterMap_congr fun x hx => Manifest.shimOn?_congr fun ps hps =>
        h.identify_eq (List.mem_append_left _ (List.mem_filterMap.2 ⟨x, hx, hps⟩)) "n_"
    have hids : (aspects.filterMap fun x => x.2.shimOn? naming w lattice x.1).map (·.id) =
        (aspects.filterMap fun x => x.2.words? w x.1).map (naming.identify "n_") := by
      rw [List.map_filterMap, List.map_filterMap]
      exact List.filterMap_congr fun x _ => x.2.map_id_shimOn?_eq naming w lattice x.1
    have hedges (tags : Names) := edgesAlong_congr tags fun e he =>
      h.identify_eq (List.mem_append_right _ (List.mem_map_of_mem he)) "e_"
    simp only [bind, Except.bind, pure, Except.pure, hshims, hids, hedges]

end Strand

namespace Board

variable {b : Board}

theorem gadgetNode_congr (h : naming.AgreesOn naming' (b.words r naming)) {slot : SlotName} {o : Occupant}
    (ho : b.Seated slot o) : naming'.gadgetNode o = naming.gadgetNode o := by
  obtain ⟨i, hseat⟩ := mem_seats_of_seated ho
  have hmem : o.words ∈ b.words r naming := List.mem_append_left _ (List.mem_map.2 ⟨_, hseat, rfl⟩)
  exact h.identify_eq hmem "n_"

theorem gadgetNodes_congr (h : naming.AgreesOn naming' (b.words r naming)) :
    b.gadgetNodes naming' = b.gadgetNodes naming := by
  have hnodes : ∀ x ∈ b.occupants.entries, b.nodesIn naming' x = b.nodesIn naming x := by
    rintro ⟨slot, list⟩ hx
    have hmap (sl : Slot) (p : Pinout) :
        list.map (fun o => o.node naming' slot sl p) = list.map fun o => o.node naming slot sl p := by
      refine List.map_congr_left fun o ho => ?_
      rw [Occupant.node, gadgetNode_congr h ⟨list, Dict.get?_eq_some_iff.2 hx, ho⟩, Occupant.node]
    simp only [nodesIn, hmap]
  unfold gadgetNodes
  rw [mapM_congr hnodes]

theorem strandOf?_congr (h : naming.AgreesOn naming' (b.words r naming)) (gadgets : Graph) (hw : w ∈ b.wires) :
    b.strandOf? r naming' gadgets w = b.strandOf? r naming gadgets w := by
  have hwords : naming.AgreesOn naming' (b.wireWords r naming w) :=
    h.mono fun ps hps => List.mem_append_right _ (List.mem_flatMap.2 ⟨w, hw, hps⟩)
  unfold wireWords at hwords
  unfold strandOf?
  split
  · next o o' ho ho' =>
    rw [ho, ho'] at hwords
    obtain ⟨slot, hseat⟩ := seated_of_landing? ho
    obtain ⟨slot', hseat'⟩ := seated_of_landing? ho'
    simp only [gadgetNode_congr h hseat, gadgetNode_congr h hseat', Strand.ofWire_congr hwords]
  · rfl

/-- The graph of a board depends on a naming by the words of the board only. -/
theorem realize_congr (h : naming.AgreesOn naming' (b.words r naming)) : b.realize r naming' = b.realize r naming := by
  rw [realize, realize, gadgetNodes_congr h]
  refine congrArg _ (funext fun nodes => ?_)
  have hstrands (gadgets : Graph) : (b.wires.mapM fun w => do return (w.id, ← b.strandOf? r naming' gadgets w)) =
      b.wires.mapM fun w => do return (w.id, ← b.strandOf? r naming gadgets w) :=
    mapM_congr fun w hw => by rw [strandOf?_congr h gadgets hw]
  simp only [hstrands]

end Board

end Patchbay
