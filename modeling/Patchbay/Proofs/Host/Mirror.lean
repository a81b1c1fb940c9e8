import Patchbay.Host.Assembly
import Patchbay.Proofs.Contact.Success
import Patchbay.Proofs.Graph.Agreement

/-! What it is for an installation to mirror a graph, and why no step to another graph fails over an installation that
does. -/

namespace Patchbay

namespace Node

variable (n : Node)

theorem contains_pins_iff {pin : PinName} : n.pins.contains pin = true ↔ ∃ d, n.direction? pin = some d := by
  rw [Dict.contains_iff]
  simp [direction?]

theorem hasInput_iff {pin : PinName} : n.hasInput pin = true ↔ n.direction? pin = some .input := by
  rw [hasInput, direction?]
  cases n.pins.get? pin with
  | none => simp
  | some spec => simp

theorem get?_contactsToward (d : PinDirection) (pin : PinName) :
    (n.contactsToward d).get? pin = if n.direction? pin = some d then some (pinContact n.id pin) else none := by
  rw [contactsToward, Dict.get?_map, Dict.get?_filter, direction?]
  cases n.pins.get? pin with
  | none => simp
  | some spec => by_cases hd : spec.direction = d <;> simp [hd]

theorem values_contactsToward (d : PinDirection) :
    (n.contactsToward d).values = (n.pinsToward d).map (pinContact n.id) := by
  simp only [contactsToward, pinsToward, Dict.map, Dict.values, Dict.keys, List.map_map, Function.comp_def]

theorem mem_pinsToward {d : PinDirection} {pin : PinName} :
    pin ∈ n.pinsToward d ↔ n.direction? pin = some d := by
  rw [pinsToward, Dict.mem_keys, Dict.contains, Dict.get?_filter, direction?]
  cases n.pins.get? pin with
  | none => simp
  | some spec => by_cases hd : spec.direction = d <;> simp [hd]

/-- A gadget is mounted on the contacts of its node's pins. -/
theorem mem_contacts_mount {c : ContactId} :
    c ∈ n.mount.contacts ↔ ∃ pin, n.pins.contains pin = true ∧ c = pinContact n.id pin := by
  rw [Mount.contacts, mount, values_contactsToward, values_contactsToward, ← List.map_append, List.mem_map]
  constructor
  · rintro ⟨pin, hpin, rfl⟩
    rcases List.mem_append.1 hpin with h | h
    · exact ⟨pin, n.contains_pins_iff.2 ⟨_, n.mem_pinsToward.1 h⟩, rfl⟩
    · exact ⟨pin, n.contains_pins_iff.2 ⟨_, n.mem_pinsToward.1 h⟩, rfl⟩
  · rintro ⟨pin, hpin, rfl⟩
    obtain ⟨d, hd⟩ := n.contains_pins_iff.1 hpin
    refine ⟨pin, List.mem_append.2 ?_, rfl⟩
    cases d with
    | input => exact .inl (n.mem_pinsToward.2 hd)
    | output => exact .inr (n.mem_pinsToward.2 hd)

theorem nodup_contacts_mount : n.mount.contacts.Nodup := by
  rw [Mount.contacts, mount, values_contactsToward, values_contactsToward, ← List.map_append]
  refine List.Nodup.map (fun _ _ => pinContact_right_inj) (List.Nodup.append ?_ ?_ ?_)
  · exact Dict.nodup_keys _
  · exact Dict.nodup_keys _
  · -- no pin has two directions
    intro pin hi ho
    have hd := (n.mem_pinsToward.1 hi).symm.trans (n.mem_pinsToward.1 ho)
    cases hd

variable {n} {n' : Node}

theorem Alike.registrationId_eq (h : n.Alike n') : n'.registrationId = n.registrationId := by
  rw [registrationId, registrationId, h.kind_eq, h.gadget_eq, h.id_eq]

theorem Alike.contactsToward_eq (h : n.Alike n') (d : PinDirection) : n'.contactsToward d = n.contactsToward d := by
  apply Dict.ext_get?
  intro pin
  rw [get?_contactsToward, get?_contactsToward, h.direction?_eq, h.id_eq]

theorem Alike.contains_pins_iff (h : n.Alike n') {pin : PinName} :
    n'.pins.contains pin = true ↔ n.pins.contains pin = true := by
  rw [Node.contains_pins_iff, Node.contains_pins_iff, h.direction?_eq]

end Node

namespace Installation

/-- The contacts are those of the pins of nodes. -/
def ContactsFor (contacts : Dict Contact) (nodes : Dict Node) : Prop :=
  ∀ c, contacts.contains c = true ↔
    ∃ id n pin, nodes.get? id = some n ∧ n.pins.contains pin = true ∧ c = pinContact id pin

/-- The gadgets are those of nodes, no two under one registration, and each is mounted on the contacts of its node. -/
structure GadgetsFor (registrations : Dict Registration) (gadgets : Dict GadgetId) (nodes : Dict Node) : Prop where
  get?_eq : ∀ id, gadgets.get? id = (nodes.get? id).map Node.registrationId
  registered_iff : ∀ r, registrations.contains r = true ↔ ∃ id, gadgets.get? id = some r
  apart : ∀ id id' r, gadgets.get? id = some r → gadgets.get? id' = some r → id = id'
  mounted : ∀ id n, nodes.get? id = some n → ∃ x, registrations.get? n.registrationId = some x ∧
    x.mount.inputs = n.contactsToward .input ∧ x.mount.outputs = n.contactsToward .output

/-- The connections are those of edges, no two edges with one connection. Each is active and leads from the contact of
the one pin to that of the other, for the wire of its edge. -/
structure ConnectionsFor (made : Dict Connection) (connections : Dict ConnectionId) (edges : Dict Edge) :
    Prop where
  contains_iff : ∀ k, connections.contains k = true ↔ edges.contains k = true
  made_iff : ∀ id, made.contains id = true ↔ ∃ k, connections.get? k = some id
  apart : ∀ k k' id, connections.get? k = some id → connections.get? k' = some id → k = k'
  joined : ∀ k e id, edges.get? k = some e → connections.get? k = some id → made.get? id =
    some { id, wire := e.wire, source := e.sourceContact, target := e.targetContact, active := true }

/-- What is in place is what the graph says, and nothing else. -/
structure Mirrors (i : Installation) (g : Graph) : Prop where
  contacts : ContactsFor i.store.contacts g.nodes
  gadgets : GadgetsFor i.executor.gadgets i.gadgets g.nodes
  connections : ConnectionsFor i.store.connections i.connections g.edges

/-! ## Contacts -/

namespace ContactsFor

variable {contacts contacts' : Dict Contact} {nodes : Dict Node}

theorem erase (h : ContactsFor contacts nodes) {id : NodeId} {n : Node} (hn : nodes.get? id = some n)
    (hdot : ∀ id, nodes.contains id = true → '.' ∉ id.toList)
    (hin : ∀ c, contacts'.contains c = true ↔
      (¬∃ pin, n.pins.contains pin = true ∧ c = pinContact id pin) ∧ contacts.contains c = true) :
    ContactsFor contacts' (nodes.erase id) := by
  intro c
  rw [hin, h c]
  constructor
  · rintro ⟨hno, id', n', pin, hn', hpin, rfl⟩
    refine ⟨id', n', pin, Dict.get?_erase_eq_some.2 ⟨?_, hn'⟩, hpin, rfl⟩
    rintro rfl
    rw [hn] at hn'
    cases hn'
    exact hno ⟨pin, hpin, rfl⟩
  · rintro ⟨id', n', pin, hn', hpin, rfl⟩
    obtain ⟨hne, hn'⟩ := Dict.get?_erase_eq_some.1 hn'
    refine ⟨?_, id', n', pin, hn', hpin, rfl⟩
    -- a contact of both nodes would have both identities
    rintro ⟨pin', -, he⟩
    exact hne (pinContact_inj (hdot id' (Dict.contains_of_get? hn')) (hdot id (Dict.contains_of_get? hn)) he).1

theorem insert (h : ContactsFor contacts nodes) {id : NodeId} {n : Node} (hnew : nodes.get? id = none)
    (hin : ∀ c, contacts'.contains c = true ↔
      (∃ pin, n.pins.contains pin = true ∧ c = pinContact id pin) ∨ contacts.contains c = true) :
    ContactsFor contacts' (nodes.insert id n) := by
  intro c
  rw [hin, h c]
  constructor
  · rintro (⟨pin, hpin, rfl⟩ | ⟨id', n', pin, hn', hpin, rfl⟩)
    · exact ⟨id, n, pin, Dict.get?_insert_self .., hpin, rfl⟩
    · refine ⟨id', n', pin, Dict.get?_insert_eq_some.2 (.inr ⟨?_, hn'⟩), hpin, rfl⟩
      rintro rfl
      rw [hnew] at hn'
      cases hn'
  · rintro ⟨id', n', pin, hn', hpin, rfl⟩
    rcases Dict.get?_insert_eq_some.1 hn' with ⟨rfl, rfl⟩ | ⟨-, hn'⟩
    · exact .inl ⟨pin, hpin, rfl⟩
    · exact .inr ⟨id', n', pin, hn', hpin, rfl⟩

end ContactsFor

/-! ## Gadgets -/

namespace GadgetsFor

variable {registrations : Dict Registration} {gadgets : Dict GadgetId} {nodes : Dict Node}

theorem get?_of_get? (h : GadgetsFor registrations gadgets nodes) {id : NodeId} {n : Node}
    (hn : nodes.get? id = some n) : gadgets.get? id = some n.registrationId := by
  rw [h.get?_eq, hn, Option.map_some]

theorem erase (h : GadgetsFor registrations gadgets nodes) {id : NodeId} {n : Node}
    (hn : nodes.get? id = some n) :
    GadgetsFor (registrations.erase n.registrationId) (gadgets.erase id) (nodes.erase id) := by
  have hid := h.get?_of_get? hn
  refine ⟨fun id' => ?_, fun r => ?_, fun id' id'' r hr hr' => ?_, fun id' n' hn' => ?_⟩
  · rw [Dict.get?_erase, Dict.get?_erase]
    split
    · rfl
    · exact h.get?_eq id'
  · rw [Dict.contains_erase, h.registered_iff]
    simp only [Dict.get?_erase_eq_some]
    constructor
    · rintro ⟨hne, id', hid'⟩
      refine ⟨id', ?_, hid'⟩
      rintro rfl
      rw [hid] at hid'
      exact hne (Option.some.inj hid').symm
    · rintro ⟨id', hne, hid'⟩
      refine ⟨?_, id', hid'⟩
      rintro rfl
      exact hne (h.apart id' id _ hid' hid)
  · exact h.apart id' id'' r (Dict.get?_erase_eq_some.1 hr).2 (Dict.get?_erase_eq_some.1 hr').2
  · obtain ⟨hne, hn'⟩ := Dict.get?_erase_eq_some.1 hn'
    obtain ⟨x, hx, hm⟩ := h.mounted id' n' hn'
    refine ⟨x, Dict.get?_erase_eq_some.2 ⟨?_, hx⟩, hm⟩
    intro he
    exact hne (h.apart id' id _ (h.get?_of_get? hn') (he ▸ hid))

theorem insert (h : GadgetsFor registrations gadgets nodes) {id : NodeId} {n : Node} (hnew : nodes.get? id = none)
    (hfree : registrations.contains n.registrationId = false) (gadget : Gadget) :
    GadgetsFor (registrations.insert n.registrationId { gadget, mount := n.mount })
      (gadgets.insert id n.registrationId) (nodes.insert id n) := by
  have hunused (id' : NodeId) : gadgets.get? id' ≠ some n.registrationId := by
    intro hid'
    exact Bool.eq_false_iff.1 hfree ((h.registered_iff _).2 ⟨id', hid'⟩)
  have hnone : gadgets.get? id = none := by rw [h.get?_eq, hnew, Option.map_none]
  refine ⟨fun id' => ?_, fun r => ?_, fun id' id'' r hr hr' => ?_, fun id' n' hn' => ?_⟩
  · rw [Dict.get?_insert, Dict.get?_insert]
    split
    · rfl
    · exact h.get?_eq id'
  · rw [Dict.contains_insert, h.registered_iff]
    simp only [Dict.get?_insert_eq_some]
    constructor
    · rintro (rfl | ⟨id', hid'⟩)
      · exact ⟨id, .inl ⟨rfl, rfl⟩⟩
      · refine ⟨id', .inr ⟨?_, hid'⟩⟩
        rintro rfl
        rw [hnone] at hid'
        cases hid'
    · rintro ⟨id', ⟨-, rfl⟩ | ⟨-, hid'⟩⟩
      · exact .inl rfl
      · exact .inr ⟨id', hid'⟩
  · rcases Dict.get?_insert_eq_some.1 hr with ⟨rfl, rfl⟩ | ⟨-, hold⟩ <;>
      rcases Dict.get?_insert_eq_some.1 hr' with ⟨rfl, hv⟩ | ⟨-, hr'⟩
    · rfl
    · exact absurd hr' (hunused id'')
    · exact absurd (hv ▸ hold) (hunused id')
    · exact h.apart id' id'' r hold hr'
  · rcases Dict.get?_insert_eq_some.1 hn' with ⟨rfl, rfl⟩ | ⟨-, hn'⟩
    · exact ⟨_, Dict.get?_insert_self .., rfl, rfl⟩
    · obtain ⟨x, hx, hm⟩ := h.mounted id' n' hn'
      refine ⟨x, Dict.get?_insert_eq_some.2 (.inr ⟨?_, hx⟩), hm⟩
      intro he
      exact hunused id' (he ▸ h.get?_of_get? hn')

end GadgetsFor

/-! ## Connections -/

namespace ConnectionsFor

variable {made : Dict Connection} {connections : Dict ConnectionId} {edges : Dict Edge}

theorem erase (h : ConnectionsFor made connections edges) {k : EdgeId} {id : ConnectionId}
    (hk : connections.get? k = some id) :
    ConnectionsFor (made.erase id) (connections.erase k) (edges.erase k) := by
  refine ⟨fun k' => ?_, fun id' => ?_, fun k' k'' id' hx hy => ?_, fun k' e id' he hid' => ?_⟩
  · rw [Dict.contains_erase, Dict.contains_erase, h.contains_iff]
  · rw [Dict.contains_erase, h.made_iff]
    simp only [Dict.get?_erase_eq_some]
    constructor
    · rintro ⟨hne, k', hk'⟩
      refine ⟨k', ?_, hk'⟩
      rintro rfl
      rw [hk] at hk'
      exact hne (Option.some.inj hk').symm
    · rintro ⟨k', hne, hk'⟩
      refine ⟨?_, k', hk'⟩
      rintro rfl
      exact hne (h.apart k' k _ hk' hk)
  · exact h.apart k' k'' id' (Dict.get?_erase_eq_some.1 hx).2 (Dict.get?_erase_eq_some.1 hy).2
  · obtain ⟨hne, he⟩ := Dict.get?_erase_eq_some.1 he
    have hid' := (Dict.get?_erase_eq_some.1 hid').2
    refine Dict.get?_erase_eq_some.2 ⟨?_, h.joined k' e id' he hid'⟩
    rintro rfl
    exact hne (h.apart k' k _ hid' hk)

theorem insert (h : ConnectionsFor made connections edges) {k : EdgeId} {e : Edge} {id : ConnectionId}
    (hnew : edges.get? k = none) (hfresh : made.get? id = none) :
    ConnectionsFor
      (made.insert id { id, wire := e.wire, source := e.sourceContact, target := e.targetContact })
      (connections.insert k id) (edges.insert k e) := by
  have hunused (k' : EdgeId) : connections.get? k' ≠ some id := by
    intro hk'
    have hmade := (h.made_iff id).2 ⟨k', hk'⟩
    rw [Dict.contains, hfresh] at hmade
    cases hmade
  have hnone : connections.get? k = none := by
    rw [← Dict.contains_eq_false_iff, Bool.eq_false_iff, ne_eq, h.contains_iff, Dict.contains, hnew]
    exact Bool.false_ne_true
  refine ⟨fun k' => ?_, fun id' => ?_, fun k' k'' id' hx hy => ?_, fun k' e' id' he hid' => ?_⟩
  · rw [Dict.contains_insert, Dict.contains_insert, h.contains_iff]
  · rw [Dict.contains_insert, h.made_iff]
    simp only [Dict.get?_insert_eq_some]
    constructor
    · rintro (rfl | ⟨k', hk'⟩)
      · exact ⟨k, .inl ⟨rfl, rfl⟩⟩
      · refine ⟨k', .inr ⟨?_, hk'⟩⟩
        rintro rfl
        rw [hnone] at hk'
        cases hk'
    · rintro ⟨k', ⟨-, rfl⟩ | ⟨-, hk'⟩⟩
      · exact .inl rfl
      · exact .inr ⟨k', hk'⟩
  · rcases Dict.get?_insert_eq_some.1 hx with ⟨rfl, rfl⟩ | ⟨-, hold⟩ <;>
      rcases Dict.get?_insert_eq_some.1 hy with ⟨rfl, hv⟩ | ⟨-, hy⟩
    · rfl
    · exact absurd hy (hunused k'')
    · exact absurd (hv ▸ hold) (hunused k')
    · exact h.apart k' k'' id' hold hy
  · rcases Dict.get?_insert_eq_some.1 hid' with ⟨rfl, rfl⟩ | ⟨hne, hold⟩
    · rw [Dict.get?_insert_self] at he
      cases he
      exact Dict.get?_insert_self ..
    · rw [Dict.get?_insert_of_ne _ hne] at he
      refine Dict.get?_insert_eq_some.2 (.inr ⟨?_, h.joined k' e' id' he hold⟩)
      rintro rfl
      exact hunused k' hold

end ConnectionsFor

/-! ## Mirrors -/

namespace Mirrors

variable {i : Installation} {g g' : Graph}

/-- A connection is that of an edge. -/
theorem edge_of_connection (h : i.Mirrors g) {k : ConnectionId} {x : Connection}
    (hx : i.store.connections.get? k = some x) :
    ∃ edge e, g.edges.get? edge = some e ∧ x.source = e.sourceContact ∧ x.target = e.targetContact := by
  obtain ⟨edge, hedge⟩ := (h.connections.made_iff k).1 (Dict.contains_of_get? hx)
  obtain ⟨e, he⟩ := Dict.contains_iff.1 ((h.connections.contains_iff edge).1 (Dict.contains_of_get? hedge))
  have hx' := h.connections.joined edge e k he hedge
  rw [hx] at hx'
  cases hx'
  exact ⟨edge, e, he, rfl, rfl⟩

/-- An edge has its connection. -/
theorem feeds_of_edge (h : i.Mirrors g) {k : EdgeId} {e : Edge} (he : g.edges.get? k = some e) :
    i.store.Feeds e.sourceContact e.targetContact := by
  obtain ⟨id, hid⟩ := Dict.contains_iff.1 ((h.connections.contains_iff k).2 (Dict.contains_of_get? he))
  exact ⟨id, _, h.connections.joined k e id he hid, rfl, rfl, rfl⟩

/-- A connection touches a node's contact only where an edge touches the node. -/
theorem untouched (h : i.Mirrors g) (hg : g.Grounded) {id : NodeId} (hid : '.' ∉ id.toList)
    (hfree : ∀ k e, g.edges.get? k = some e → e.source ≠ id ∧ e.target ≠ id) {pin : PinName}
    {k : ConnectionId} {x : Connection} (hx : i.store.connections.get? k = some x) :
    x.source ≠ pinContact id pin ∧ x.target ≠ pinContact id pin := by
  obtain ⟨edge, e, he, hsource, htarget⟩ := h.edge_of_connection hx
  obtain ⟨hs, ht⟩ := hg.ends edge e he
  obtain ⟨hne, hne'⟩ := hfree edge e he
  rw [hsource, htarget]
  exact ⟨fun hc => hne (pinContact_inj (hg.undotted _ hs) hid hc).1,
    fun hc => hne' (pinContact_inj (hg.undotted _ ht) hid hc).1⟩

/-- Whatever mirrors a graph mirrors one that has the same nodes and edges, on other lattices and with other tags. -/
theorem congr (h : i.Mirrors g) (ha : g.Agrees g')
    (hn : ∀ id, g'.nodes.contains id = true ↔ g.nodes.contains id = true)
    (he : ∀ k, g'.edges.contains k = true ↔ g.edges.contains k = true) : i.Mirrors g' := by
  have hto {id n} (hid : g.nodes.get? id = some n) : ∃ n', g'.nodes.get? id = some n' ∧ n.Alike n' := by
    obtain ⟨n', hn'⟩ := Dict.contains_iff.1 ((hn id).2 (Dict.contains_of_get? hid))
    exact ⟨n', hn', ha.nodes id n n' hid hn'⟩
  have hof {id n'} (hid : g'.nodes.get? id = some n') : ∃ n, g.nodes.get? id = some n ∧ n.Alike n' := by
    obtain ⟨n, hn'⟩ := Dict.contains_iff.1 ((hn id).1 (Dict.contains_of_get? hid))
    exact ⟨n, hn', ha.nodes id n n' hn' hid⟩
  refine ⟨fun c => ?_, ⟨fun id => ?_, h.gadgets.registered_iff, h.gadgets.apart, fun id n' hn' => ?_⟩,
    ⟨fun k => ?_, h.connections.made_iff, h.connections.apart, fun k e' id he' hid => ?_⟩⟩
  · rw [h.contacts c]
    constructor
    · rintro ⟨id, n, pin, hid, hpin, rfl⟩
      obtain ⟨n', hid', hn'⟩ := hto hid
      exact ⟨id, n', pin, hid', hn'.contains_pins_iff.2 hpin, rfl⟩
    · rintro ⟨id, n', pin, hid', hpin, rfl⟩
      obtain ⟨n, hid, hn'⟩ := hof hid'
      exact ⟨id, n, pin, hid, hn'.contains_pins_iff.1 hpin, rfl⟩
  · rw [h.gadgets.get?_eq]
    cases hid : g.nodes.get? id with
    | none =>
      have hnone : g'.nodes.get? id = none := by
        rw [← Dict.contains_eq_false_iff, Bool.eq_false_iff, ne_eq, hn, Dict.contains, hid]
        exact Bool.false_ne_true
      rw [hnone]
    | some n =>
      obtain ⟨n', hid', hn'⟩ := hto hid
      rw [hid', Option.map_some, Option.map_some, hn'.registrationId_eq]
  · obtain ⟨n, hid, hn''⟩ := hof hn'
    rw [hn''.registrationId_eq, hn''.contactsToward_eq, hn''.contactsToward_eq]
    exact h.gadgets.mounted id n hid
  · rw [h.connections.contains_iff, he]
  · obtain ⟨e, hk⟩ := Dict.contains_iff.1 ((he k).1 (Dict.contains_of_get? he'))
    obtain ⟨tags, rfl⟩ := ha.edges k e e' hk he'
    exact h.connections.joined k e id hk hid

end Mirrors

end Installation

end Patchbay
