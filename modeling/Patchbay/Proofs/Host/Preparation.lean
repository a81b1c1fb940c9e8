import Patchbay.Host.Preparation
import Patchbay.Proofs.Host.Mirror
import Mathlib.Data.List.Pairwise

/-! What a change has ready once it is prepared: all that its new nodes need, registrations that clash with none, and
pins at both ends of its new edges. -/

namespace Patchbay

/-- Nothing is missing for the steps from one graph to another. -/
structure Preparation.Ready (p : Preparation) (old new : Graph) : Prop where
  made : ∀ id n, new.nodes.get? id = some n → old.nodes.contains id = false →
    ∃ gadget, p.gadgets.get? id = some gadget ∧ ∀ pin ∈ gadget.inputs, n.hasInput pin = true
  lattices : ∀ id n, new.nodes.get? id = some n → old.nodes.contains id = false →
    ∀ pin, n.pins.contains pin = true → p.lattices.contains (pinContact id pin) = true
  apart : ∀ id id' n n', new.nodes.get? id = some n → new.nodes.get? id' = some n' →
    n.registrationId = n'.registrationId → id = id'
  anchored : ∀ k e, new.edges.get? k = some e → old.edges.contains k = false →
    (∃ n, new.nodes.get? e.source = some n ∧ n.pins.contains e.sourcePin = true) ∧
      ∃ n, new.nodes.get? e.target = some n ∧ n.pins.contains e.targetPin = true

/-! ## What comes and what goes -/

namespace Graph

variable {old new : Graph}

theorem mem_addedNodes {n : Node} :
    n ∈ GraphDiff.addedNodes new (old.diff new) ↔
      ∃ id, new.nodes.get? id = some n ∧ old.nodes.contains id = false := by
  simp only [GraphDiff.addedNodes, diff, List.mem_filterMap, List.mem_append, List.mem_map, mem_missingFrom]
  constructor
  · rintro ⟨_, ((⟨_, -, rfl⟩ | ⟨_, -, rfl⟩) | ⟨id, ⟨-, hold⟩, rfl⟩) | ⟨_, -, rfl⟩, hn⟩
    · cases hn
    · cases hn
    · exact ⟨id, hn, hold⟩
    · cases hn
  · rintro ⟨id, hn, hold⟩
    exact ⟨.addNode id, .inl (.inr ⟨id, ⟨Dict.contains_of_get? hn, hold⟩, rfl⟩), hn⟩

theorem mem_addedEdges {e : Edge} :
    e ∈ GraphDiff.addedEdges new (old.diff new) ↔
      ∃ k, new.edges.get? k = some e ∧ old.edges.contains k = false := by
  simp only [GraphDiff.addedEdges, diff, List.mem_filterMap, List.mem_append, List.mem_map, mem_missingFrom]
  constructor
  · rintro ⟨_, ((⟨_, -, rfl⟩ | ⟨_, -, rfl⟩) | ⟨_, -, rfl⟩) | ⟨k, ⟨-, hold⟩, rfl⟩, he⟩
    · cases he
    · cases he
    · cases he
    · exact ⟨k, he, hold⟩
  · rintro ⟨k, he, hold⟩
    exact ⟨.addEdge k, .inr ⟨k, ⟨Dict.contains_of_get? he, hold⟩, rfl⟩, he⟩

theorem mem_removedNodes {id : NodeId} :
    id ∈ GraphDiff.removedNodes (old.diff new) ↔
      old.nodes.contains id = true ∧ new.nodes.contains id = false := by
  simp only [GraphDiff.removedNodes, diff, List.mem_filterMap, List.mem_append, List.mem_map, mem_missingFrom]
  constructor
  · rintro ⟨_, ((⟨_, -, rfl⟩ | ⟨id, hid, rfl⟩) | ⟨_, -, rfl⟩) | ⟨_, -, rfl⟩, hn⟩
    · cases hn
    · cases hn
      exact hid
    · cases hn
    · cases hn
  · intro hid
    exact ⟨.removeNode id, .inl (.inl (.inr ⟨id, hid, rfl⟩)), rfl⟩

end Graph

theorem Retirement.gadgets_foldl_addGadget (x : Executor) (l : List GadgetId) (r : Retirement) :
    (l.foldl (addGadget x) r).gadgets = l.foldl Names.add r.gadgets := by
  induction l generalizing r with
  | nil => rfl
  | cons id rest ih =>
    rw [List.foldl_cons, ih]
    rfl

theorem Retirement.contains_gadgets_ofDiffs {i : Installation} {old new : Graph} {gadget : GadgetId} :
    (ofDiffs i (old.diff new)).gadgets.contains gadget = true ↔
      ∃ id, old.nodes.contains id = true ∧ new.nodes.contains id = false ∧ i.gadgets.get? id = some gadget := by
  rw [ofDiffs, gadgets_foldl_addGadget, Names.contains_foldl_add, List.mem_filterMap]
  constructor
  · rintro (⟨id, hid, hg⟩ | hn)
    · obtain ⟨hold, hnew⟩ := Graph.mem_removedNodes.1 hid
      exact ⟨id, hold, hnew, hg⟩
    · cases hn
  · rintro ⟨id, hold, hnew, hg⟩
    exact .inl ⟨id, Graph.mem_removedNodes.2 ⟨hold, hnew⟩, hg⟩

/-! ## Nodes -/

namespace Workshop

variable {w : Workshop} {i : Installation} {r : Retirement}

theorem contains_of_preparePins {node : NodeId} {pins : List (PinName × PinSpec)} {d d' : Dict Lattice}
    (h : pins.foldlM (w.preparePin i r node) d = .ok d') (c : ContactId) :
    d'.contains c = true ↔ (∃ pin ∈ pins, c = pinContact node pin.1) ∨ d.contains c = true := by
  induction pins generalizing d with
  | nil =>
    cases h
    simp
  | cons pin rest ih =>
    rw [List.foldlM_cons] at h
    obtain ⟨d₁, hpin, hrest⟩ := ok_of_bind h
    unfold preparePin at hpin
    simp only at hpin
    split at hpin
    · cases hpin
    · obtain ⟨lattice, -, hpin⟩ := ok_of_bind hpin
      cases hpin
      rw [ih hrest, Dict.contains_insert, List.exists_mem_cons_iff, or_left_comm, or_assoc]

/-- A node that is prepared has its gadget made, its registration noted and the lattices of its pins at hand. -/
theorem of_prepareNode {p p' : Preparation} {n : Node} (h : w.prepareNode i r p n = .ok p') :
    i.keepsGadget r n.registrationId = false ∧ p.registrations.contains n.registrationId = false ∧
      p'.registrations = p.registrations.add n.registrationId ∧
      (∃ gadget, (∀ pin ∈ gadget.inputs, n.hasInput pin = true) ∧
        p'.gadgets = p.gadgets.insert n.id gadget) ∧
      ∀ c, p'.lattices.contains c = true ↔
        (∃ pin, n.pins.contains pin = true ∧ c = pinContact n.id pin) ∨ p.lattices.contains c = true := by
  obtain ⟨gadget, -, h⟩ := ok_of_bind h
  split at h
  · cases h
  next hpins =>
  split at h
  · cases h
  next hfree =>
  obtain ⟨lattices, hl, h⟩ := ok_of_bind h
  cases h
  rw [Bool.or_eq_true, not_or, Bool.not_eq_true, Bool.not_eq_true] at hfree
  refine ⟨hfree.1, hfree.2, rfl, ⟨gadget, fun pin hpin => ?_, rfl⟩, fun c => ?_⟩
  · have hin := List.find?_eq_none.1 hpins pin hpin
    simpa using hin
  · rw [contains_of_preparePins hl]
    refine or_congr_left ⟨?_, ?_⟩
    · rintro ⟨pin, hp, rfl⟩
      exact ⟨pin.1, Dict.contains_of_get? (Dict.get?_eq_some_iff.2 hp), rfl⟩
    · rintro ⟨pin, hp, rfl⟩
      obtain ⟨spec, hspec⟩ := Dict.contains_iff.1 hp
      exact ⟨(pin, spec), Dict.get?_eq_some_iff.1 hspec, rfl⟩

variable {ns : List Node} {p p' : Preparation}

theorem registrations_of_prepareNodes (h : ns.foldlM (w.prepareNode i r) p = .ok p') :
    (∀ n ∈ ns, i.keepsGadget r n.registrationId = false ∧
      p.registrations.contains n.registrationId = false) ∧
      ns.Pairwise fun n n' => n.registrationId ≠ n'.registrationId := by
  induction ns generalizing p with
  | nil => exact ⟨nofun, .nil⟩
  | cons n rest ih =>
    rw [List.foldlM_cons] at h
    obtain ⟨p₁, hn, hrest⟩ := ok_of_bind h
    obtain ⟨hkeeps, hnew, hreg, -⟩ := of_prepareNode hn
    obtain ⟨hfree, hpair⟩ := ih hrest
    have hlater {m : Node} (hm : m ∈ rest) :
        m.registrationId ≠ n.registrationId ∧ p.registrations.contains m.registrationId = false := by
      have hno := (hfree m hm).2
      rw [hreg, Bool.eq_false_iff, ne_eq, Names.contains_add, not_or] at hno
      exact ⟨hno.1, Bool.eq_false_iff.2 hno.2⟩
    constructor
    · intro m hm
      rcases List.mem_cons.1 hm with rfl | hm
      · exact ⟨hkeeps, hnew⟩
      · exact ⟨(hfree m hm).1, (hlater hm).2⟩
    · exact List.pairwise_cons.2 ⟨fun m hm he => (hlater hm).1 he.symm, hpair⟩

theorem lattices_of_prepareNodes (h : ns.foldlM (w.prepareNode i r) p = .ok p') (c : ContactId) :
    p'.lattices.contains c = true ↔
      (∃ n ∈ ns, ∃ pin, n.pins.contains pin = true ∧ c = pinContact n.id pin) ∨
        p.lattices.contains c = true := by
  induction ns generalizing p with
  | nil =>
    cases h
    simp
  | cons n rest ih =>
    rw [List.foldlM_cons] at h
    obtain ⟨p₁, hn, hrest⟩ := ok_of_bind h
    obtain ⟨-, -, -, -, hl⟩ := of_prepareNode hn
    rw [ih hrest, hl, List.exists_mem_cons_iff, or_left_comm, or_assoc]

theorem contains_gadgets_of_prepareNodes (h : ns.foldlM (w.prepareNode i r) p = .ok p') (id : NodeId) :
    p'.gadgets.contains id = true ↔ id ∈ ns.map (·.id) ∨ p.gadgets.contains id = true := by
  induction ns generalizing p with
  | nil =>
    cases h
    simp
  | cons n rest ih =>
    rw [List.foldlM_cons] at h
    obtain ⟨p₁, hn, hrest⟩ := ok_of_bind h
    obtain ⟨-, -, -, ⟨gadget, -, hg⟩, -⟩ := of_prepareNode hn
    rw [ih hrest, hg, Dict.contains_insert, List.map_cons, List.mem_cons, or_left_comm, or_assoc]

/-- Each gadget that was made reads inputs of its node only. -/
theorem gadgets_of_prepareNodes (h : ns.foldlM (w.prepareNode i r) p = .ok p') {id : NodeId} {gadget : Gadget}
    (hg : p'.gadgets.get? id = some gadget) :
    (∃ n ∈ ns, n.id = id ∧ ∀ pin ∈ gadget.inputs, n.hasInput pin = true) ∨
      p.gadgets.get? id = some gadget := by
  induction ns generalizing p with
  | nil =>
    cases h
    exact .inr hg
  | cons n rest ih =>
    rw [List.foldlM_cons] at h
    obtain ⟨p₁, hn, hrest⟩ := ok_of_bind h
    obtain ⟨-, -, -, ⟨gadget', hpins, hp₁⟩, -⟩ := of_prepareNode hn
    rcases ih hrest with ⟨m, hm, hid⟩ | hg
    · exact .inl ⟨m, List.mem_cons_of_mem n hm, hid⟩
    · rw [hp₁] at hg
      rcases Dict.get?_insert_eq_some.1 hg with ⟨rfl, rfl⟩ | ⟨-, hg⟩
      · exact .inl ⟨n, List.mem_cons_self, rfl, hpins⟩
      · exact .inr hg

/-! ## Changes -/

variable {old new : Graph}

theorem checkContact_eq_ok {c : ContactId} (h : checkContact i r p c = .ok ()) :
    i.store.contains c = true ∨ p.lattices.contains c = true := by
  unfold checkContact at h
  split at h
  · next hc =>
    rw [Bool.or_eq_true, Installation.keepsContact, Bool.and_eq_true] at hc
    exact hc.imp_left And.left
  · cases h

/-- A contact that is in place or will be is the contact of a pin of the new graph, if its node is one of the new
graph's. -/
theorem pin_of_contact (hi : i.Mirrors old) (hold : old.Grounded) (hnew : new.Grounded)
    (ha : old.Agrees new)
    (hp : (GraphDiff.addedNodes new (old.diff new)).foldlM (w.prepareNode i r) {} = .ok p) {id : NodeId}
    {pin : PinName} (hid : new.nodes.contains id = true)
    (h : i.store.contains (pinContact id pin) = true ∨ p.lattices.contains (pinContact id pin) = true) :
    ∃ n, new.nodes.get? id = some n ∧ n.pins.contains pin = true := by
  have hdot := hnew.undotted id hid
  rcases h with h | h
  · obtain ⟨id', m, pin', hm, hpin, he⟩ := (hi.contacts _).1 h
    obtain ⟨rfl, rfl⟩ := pinContact_inj hdot (hold.undotted id' (Dict.contains_of_get? hm)) he
    obtain ⟨n, hn⟩ := Dict.contains_iff.1 hid
    exact ⟨n, hn, (ha.nodes id m n hm hn).contains_pins_iff.2 hpin⟩
  · rcases (lattices_of_prepareNodes hp _).1 h with ⟨n, hn, pin', hpin, he⟩ | hno
    · obtain ⟨id', hid', -⟩ := Graph.mem_addedNodes.1 hn
      rw [hnew.node_id id' n hid'] at he
      obtain ⟨rfl, rfl⟩ := pinContact_inj hdot (hnew.undotted id' (Dict.contains_of_get? hid')) he
      exact ⟨n, hid', hpin⟩
    · cases hno

/-- No two nodes of the new graph come under one registration, be they old or new. -/
theorem apart_of_prepareNodes (hi : i.Mirrors old) (hnew : new.Grounded) (ha : old.Agrees new)
    (hp : w.prepareNodes new (old.diff new) i = .ok p) {id id' : NodeId} {n n' : Node}
    (hn : new.nodes.get? id = some n) (hn' : new.nodes.get? id' = some n')
    (hreg : n.registrationId = n'.registrationId) : id = id' := by
  obtain ⟨hfree, hpair⟩ := registrations_of_prepareNodes hp
  -- a new node does not take the registration of one that stays
  have hclash {id id' : NodeId} {n n' m : Node} (hm : old.nodes.get? id = some m)
      (hn : new.nodes.get? id = some n) (hold' : old.nodes.contains id' = false)
      (hn' : new.nodes.get? id' = some n') : n.registrationId ≠ n'.registrationId := by
    intro he
    have hkeeps := (hfree n' (Graph.mem_addedNodes.2 ⟨id', hn', hold'⟩)).1
    have hgadget : i.gadgets.get? id = some n'.registrationId := by
      rw [hi.gadgets.get?_of_get? hm, ← (ha.nodes id m n hm hn).registrationId_eq, he]
    have hin : i.executor.contains n'.registrationId = true :=
      (hi.gadgets.registered_iff _).2 ⟨id, hgadget⟩
    rw [Installation.keepsGadget, hin, Bool.true_and, Bool.not_eq_false'] at hkeeps
    obtain ⟨id'', -, hgone, hgadget'⟩ := Retirement.contains_gadgets_ofDiffs.1 hkeeps
    obtain rfl := hi.gadgets.apart id'' id _ hgadget' hgadget
    rw [Dict.contains_of_get? hn] at hgone
    cases hgone
  cases hm : old.nodes.get? id with
  | some m =>
    cases hm' : old.nodes.get? id' with
    | some m' =>
      apply hi.gadgets.apart id id' m.registrationId (hi.gadgets.get?_of_get? hm)
      rw [hi.gadgets.get?_of_get? hm', ← (ha.nodes id m n hm hn).registrationId_eq, hreg,
        (ha.nodes id' m' n' hm' hn').registrationId_eq]
    | none => exact absurd hreg (hclash hm hn (Dict.contains_eq_false_iff.2 hm') hn')
  | none =>
    have hold := Dict.contains_eq_false_iff.2 hm
    cases hm' : old.nodes.get? id' with
    | some m' => exact absurd hreg.symm (hclash hm' hn' hold hn)
    | none =>
      have hold' := Dict.contains_eq_false_iff.2 hm'
      have hsymm : Std.Symm fun n n' : Node => n.registrationId ≠ n'.registrationId := ⟨fun _ _ => Ne.symm⟩
      by_cases hsame : n = n'
      · rw [← hnew.node_id id n hn, hsame, hnew.node_id id' n' hn']
      · exact absurd hreg (hpair.forall (Graph.mem_addedNodes.2 ⟨id, hn, hold⟩)
          (Graph.mem_addedNodes.2 ⟨id', hn', hold'⟩) hsame)

theorem ready_of_prepare (hi : i.Mirrors old) (hold : old.Grounded) (hnew : new.Grounded)
    (ha : old.Agrees new) (hp : w.prepare new (old.diff new) i = .ok p) : p.Ready old new := by
  obtain ⟨p', hnodes, hp⟩ := ok_of_bind hp
  obtain ⟨_, hedges, hp⟩ := ok_of_bind hp
  cases hp
  refine ⟨fun id n hn hid => ?_, fun id n hn hid pin hpin => ?_, fun id id' n n' hn hn' hreg => ?_,
    fun k e he hk => ?_⟩
  · have hmem := Graph.mem_addedNodes.2 ⟨id, hn, hid⟩
    have hcontains := (contains_gadgets_of_prepareNodes hnodes id).2
      (.inl (List.mem_map.2 ⟨n, hmem, hnew.node_id id n hn⟩))
    obtain ⟨gadget, hgadget⟩ := Dict.contains_iff.1 hcontains
    refine ⟨gadget, hgadget, ?_⟩
    rcases gadgets_of_prepareNodes hnodes hgadget with ⟨m, hm, hmid, hpins⟩ | hno
    · -- the node that the gadget was made for has the identity of this one
      obtain ⟨id', hm', -⟩ := Graph.mem_addedNodes.1 hm
      rw [hnew.node_id id' m hm'] at hmid
      rw [hmid, hn] at hm'
      cases hm'
      exact hpins
    · cases hno
  · have hmem := Graph.mem_addedNodes.2 ⟨id, hn, hid⟩
    exact (lattices_of_prepareNodes hnodes _).2 (.inl ⟨n, hmem, pin, hpin, by rw [hnew.node_id id n hn]⟩)
  · exact apart_of_prepareNodes hi hnew ha hnodes hn hn' hreg
  · have hends := ok_of_forM hedges e (Graph.mem_addedEdges.2 ⟨k, he, hk⟩)
    obtain ⟨_, hs, ht⟩ := ok_of_bind hends
    obtain ⟨hsource, htarget⟩ := hnew.ends k e he
    exact ⟨pin_of_contact hi hold hnew ha hnodes hsource (checkContact_eq_ok hs),
      pin_of_contact hi hold hnew ha hnodes htarget (checkContact_eq_ok ht)⟩

end Workshop

end Patchbay
