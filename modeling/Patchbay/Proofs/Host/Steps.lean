import Patchbay.Proofs.Host.Mirror

/-! Single steps over an installation that mirrors a graph. Each goes through where the graph allows it, and what is
in place afterwards mirrors the graph that the step leads to. -/

namespace Patchbay

namespace Executor

variable {x : Executor}

theorem register_of_free {id : GadgetId} {gadget : Gadget} (mount : Mount) (h : x.contains id = false)
    (hpins : ∀ pin ∈ gadget.inputs, mount.inputs.contains pin = true) :
    ∃ x', x.register id gadget mount = .ok x' ∧ x'.gadgets = x.gadgets.insert id { gadget, mount } := by
  unfold register
  rw [if_neg (Bool.eq_false_iff.1 h)]
  have hnone : (gadget.inputs.find? fun pin => !mount.inputs.contains pin) = none := by
    rw [List.find?_eq_none]
    intro pin hpin
    simp [hpins pin hpin]
  rw [hnone]
  exact ⟨_, rfl, rfl⟩

theorem unregister_of_get? {id : GadgetId} {r : Registration} (h : x.gadgets.get? id = some r) :
    ∃ x', x.unregister id = .ok (x', r.mount) ∧ x'.gadgets = x.gadgets.erase id := by
  unfold unregister registration
  rw [h]
  exact ⟨_, rfl, rfl⟩

end Executor

namespace Installation

/-! ## Contacts -/

/-- Contacts that no connection touches go one after the other. -/
theorem foldlM_dropContact {cs : List ContactId} {s : ContactStore} (hw : s.Wired) (hnodup : cs.Nodup)
    (hin : ∀ c ∈ cs, s.contains c = true)
    (hfree : ∀ c ∈ cs, ∀ k x, s.connections.get? k = some x → x.source ≠ c ∧ x.target ≠ c) :
    ∃ s', cs.foldlM dropContact s = .ok s' ∧ s'.Wired ∧ s'.connections = s.connections ∧
      ∀ c, s'.contains c = true ↔ c ∉ cs ∧ s.contains c = true := by
  induction cs generalizing s with
  | nil => exact ⟨s, rfl, hw, rfl, fun c => by simp⟩
  | cons c rest ih =>
    obtain ⟨hc, hrest⟩ := List.nodup_cons.1 hnodup
    obtain ⟨s₁, old, hr, hcontacts, hconns⟩ := ContactStore.remove_of_untouched
      (hin c List.mem_cons_self) (hfree c List.mem_cons_self)
    have hin₁ (d : ContactId) : s₁.contains d = true ↔ d ≠ c ∧ s.contains d = true := by
      rw [ContactStore.contains, hcontacts]
      exact Dict.contains_erase ..
    obtain ⟨s', hs', hw', hconns', hin'⟩ := ih (hw.remove hr) hrest
      (fun d hd => (hin₁ d).2 ⟨fun he => hc (he ▸ hd), hin d (List.mem_cons_of_mem c hd)⟩)
      (fun d hd => hconns ▸ hfree d (List.mem_cons_of_mem c hd))
    refine ⟨s', ?_, hw', hconns'.trans hconns, fun d => ?_⟩
    · have hdrop : dropContact s c = .ok s₁ := by rw [dropContact, hr]
      rw [List.foldlM_cons, hdrop]
      exact hs'
    · rw [hin', hin₁, List.mem_cons, not_or, and_left_comm, and_assoc]

/-- Contacts that are not there yet come one after the other. -/
theorem foldlM_addContact {p : Preparation} {pins : List (PinName × PinSpec)} {s : ContactStore} (node : NodeId)
    (hw : s.Wired) (hnodup : (pins.map (·.1)).Nodup)
    (hlattice : ∀ pin ∈ pins, p.lattices.contains (pinContact node pin.1) = true)
    (hnew : ∀ pin ∈ pins, s.contains (pinContact node pin.1) = false) :
    ∃ s', pins.foldlM (addContact p node) s = .ok s' ∧ s'.Wired ∧ s'.connections = s.connections ∧
      ∀ c, s'.contains c = true ↔ (∃ pin ∈ pins, c = pinContact node pin.1) ∨ s.contains c = true := by
  induction pins generalizing s with
  | nil => exact ⟨s, rfl, hw, rfl, fun c => by simp⟩
  | cons pin rest ih =>
    obtain ⟨hpin, hrest⟩ := List.nodup_cons.1 hnodup
    obtain ⟨lattice, hl⟩ := Dict.contains_iff.1 (hlattice pin List.mem_cons_self)
    have hr := ContactStore.register_of_free lattice (hnew pin List.mem_cons_self)
    set s₁ : ContactStore := { s with contacts := s.contacts.insert (pinContact node pin.1) _ }
    have hin₁ (c : ContactId) : s₁.contains c = true ↔ c = pinContact node pin.1 ∨ s.contains c = true :=
      Dict.contains_insert ..
    obtain ⟨s', hs', hw', hconns', hin'⟩ := ih (hw.register hr) hrest
      (fun q hq => hlattice q (List.mem_cons_of_mem pin hq)) fun q hq => by
        rw [Bool.eq_false_iff]
        intro hc
        rcases (hin₁ _).1 hc with he | hc
        · exact hpin (List.mem_map.2 ⟨q, hq, pinContact_right_inj he⟩)
        · exact absurd hc (Bool.eq_false_iff.1 (hnew q (List.mem_cons_of_mem pin hq)))
    refine ⟨s', ?_, hw', hconns', fun c => ?_⟩
    · have hadd : addContact p node s pin = .ok s₁ := by
        simp only [addContact, hl, hr, Except.mapError]
      rw [List.foldlM_cons, hadd]
      exact hs'
    · rw [hin', hin₁, List.exists_mem_cons_iff, or_left_comm, or_assoc]

namespace Mirrors

variable {i : Installation} {g : Graph}

/-! ## Steps away from a graph -/

theorem removeEdge (h : i.Mirrors g) (hw : i.store.Wired) (k : EdgeId) :
    (i.removeEdge k).Mirrors { g with edges := g.edges.erase k } ∧ (i.removeEdge k).store.Wired := by
  unfold Installation.removeEdge
  cases hk : i.connections.get? k with
  | none =>
    have hnone : g.edges.contains k = false := by
      rw [Bool.eq_false_iff, ne_eq, ← h.connections.contains_iff, Dict.contains, hk]
      exact Bool.false_ne_true
    rw [Dict.erase_eq_self (Dict.contains_eq_false_iff.1 hnone)]
    exact ⟨h, hw⟩
  | some id =>
    refine ⟨⟨?_, h.gadgets, ?_⟩, hw.dropConnection id⟩
    · have hcontacts := ContactStore.contacts_dropConnection i.store id
      exact hcontacts ▸ h.contacts
    · have hconnections := ContactStore.connections_dropConnection i.store id
      exact hconnections ▸ h.connections.erase hk

theorem removeNode (h : i.Mirrors g) (hw : i.store.Wired) (hg : g.Grounded) {id : NodeId}
    (hfree : ∀ k e, g.edges.get? k = some e → e.source ≠ id ∧ e.target ≠ id) :
    ∃ i', i.removeNode id = .ok i' ∧ i'.Mirrors { g with nodes := g.nodes.erase id } ∧ i'.store.Wired := by
  unfold Installation.removeNode
  rw [h.gadgets.get?_eq]
  cases hn : g.nodes.get? id with
  | none =>
    rw [Dict.erase_eq_self hn]
    exact ⟨i, rfl, h, hw⟩
  | some n =>
    have hid : n.id = id := hg.node_id id n hn
    have hdot : '.' ∉ id.toList := hg.undotted id (Dict.contains_of_get? hn)
    obtain ⟨r, hr, hinputs, houtputs⟩ := h.gadgets.mounted id n hn
    obtain ⟨executor, hx, hgadgets⟩ := Executor.unregister_of_get? hr
    have hcontacts : r.mount.contacts = n.mount.contacts := by
      rw [Mount.contacts, Mount.contacts, hinputs, houtputs, Node.mount]
    have hmem (c : ContactId) :
        c ∈ r.mount.contacts ↔ ∃ pin, n.pins.contains pin = true ∧ c = pinContact id pin := by
      rw [hcontacts, n.mem_contacts_mount, hid]
    obtain ⟨store, hs, hw', hmade, hin⟩ := foldlM_dropContact hw
      (show r.mount.contacts.Nodup from hcontacts ▸ n.nodup_contacts_mount)
      (fun c hc => by
        obtain ⟨pin, hpin, rfl⟩ := (hmem c).1 hc
        exact (h.contacts _).2 ⟨id, n, pin, hn, hpin, rfl⟩)
      (fun c hc k x hk => by
        obtain ⟨pin, -, rfl⟩ := (hmem c).1 hc
        exact h.untouched hg hdot hfree hk)
    simp only [Option.map_some, hx, Except.mapError, bind, Except.bind, hs]
    refine ⟨_, rfl, ⟨?_, ?_, ?_⟩, hw'⟩
    · exact h.contacts.erase hn hg.undotted fun c => by
        rw [← hmem]
        exact hin c
    · have hg' := h.gadgets.erase hn
      rw [← hgadgets] at hg'
      exact hg'
    · exact hmade ▸ h.connections

/-! ## Steps towards a graph -/

theorem addNode (h : i.Mirrors g) (hw : i.store.Wired) (hg : g.Grounded) {p : Preparation} {n : Node}
    {gadget : Gadget} (hdot : '.' ∉ n.id.toList) (hnew : g.nodes.get? n.id = none)
    (hfree : ∀ id m, g.nodes.get? id = some m → m.registrationId ≠ n.registrationId)
    (hmade : p.gadgets.get? n.id = some gadget) (hpins : ∀ pin ∈ gadget.inputs, n.hasInput pin = true)
    (hlattice : ∀ pin, n.pins.contains pin = true → p.lattices.contains (pinContact n.id pin) = true) :
    ∃ i', i.addNode p n = .ok i' ∧ i'.Mirrors (g.addNode n) ∧ i'.store.Wired := by
  have hpin {pin : PinName × PinSpec} (hp : pin ∈ n.pins.entries) : n.pins.contains pin.1 = true :=
    Dict.contains_of_get? (Dict.get?_eq_some_iff.2 hp)
  have hunregistered : i.executor.contains n.registrationId = false := by
    rw [Bool.eq_false_iff]
    intro hc
    obtain ⟨id, hid⟩ := (h.gadgets.registered_iff _).1 hc
    rw [h.gadgets.get?_eq] at hid
    obtain ⟨m, hm, he⟩ := Option.map_eq_some_iff.1 hid
    exact hfree id m hm he
  -- a contact of that identity would belong to a node of the same one
  have hunheld {pin : PinName} : i.store.contains (pinContact n.id pin) = false := by
    rw [Bool.eq_false_iff]
    intro hc
    obtain ⟨id, m, pin', hm, -, he⟩ := (h.contacts _).1 hc
    obtain ⟨rfl, -⟩ := pinContact_inj hdot (hg.undotted id (Dict.contains_of_get? hm)) he
    rw [hnew] at hm
    cases hm
  obtain ⟨store, hs, hw', hconnections, hin⟩ := foldlM_addContact (p := p) n.id hw
    n.pins.nodup_keys (fun pin hp => hlattice pin.1 (hpin hp)) fun pin _ => hunheld
  obtain ⟨executor, hx, hgadgets⟩ := Executor.register_of_free (x := i.executor) n.mount
    hunregistered fun pin hp => by
      have hd := n.hasInput_iff.1 (hpins pin hp)
      exact Dict.contains_of_get? ((n.get?_contactsToward .input pin).trans (if_pos hd))
  unfold Installation.addNode
  simp only [hmade, bind, Except.bind, hs, hx, Except.mapError]
  refine ⟨_, rfl, ⟨?_, ?_, ?_⟩, hw'⟩
  · refine h.contacts.insert hnew fun c => (hin c).trans (or_congr_left ?_)
    constructor
    · rintro ⟨pin, hp, rfl⟩
      exact ⟨pin.1, hpin hp, rfl⟩
    · rintro ⟨pin, hp, rfl⟩
      obtain ⟨spec, hspec⟩ := Dict.contains_iff.1 hp
      exact ⟨(pin, spec), Dict.get?_eq_some_iff.1 hspec, rfl⟩
  · have hg' := h.gadgets.insert hnew hunregistered gadget
    rw [← hgadgets] at hg'
    exact hg'
  · exact hconnections ▸ h.connections

theorem addEdge (h : i.Mirrors g) (hw : i.store.Wired) {e : Edge} (hnew : g.edges.get? e.id = none)
    (hs : i.store.contains e.sourceContact = true) (ht : i.store.contains e.targetContact = true) :
    ∃ i', i.addEdge e = .ok i' ∧ i'.Mirrors (g.addEdge e) ∧ i'.store.Wired := by
  obtain ⟨store, hc, hcontacts, hmade⟩ := ContactStore.connect_of_contains e.wire hs ht
  unfold Installation.addEdge
  simp only [hc, Except.mapError, bind, Except.bind]
  refine ⟨_, rfl, ⟨?_, h.gadgets, ?_⟩, hw.connect hc⟩
  · exact hcontacts ▸ h.contacts
  · have hconnections := h.connections.insert (e := e) hnew hw.fresh
    rw [← hmade] at hconnections
    exact hconnections

end Mirrors

end Installation

end Patchbay
