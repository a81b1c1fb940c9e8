import Patchbay.Proofs.Graph.Thinning
import Patchbay.Proofs.Host.Lasting
import Patchbay.Proofs.Host.Workshop

/-! Removals. A gadget that is mounted can be unmounted and a wire that is declared can be removed, whatever that makes of
the other wires: nothing new has to be made, and all that new edges need is in place. -/

namespace Patchbay

/-! ## What goes away -/

theorem Retirement.contains_contacts_foldl_addGadget (x : Executor) (l : List GadgetId) (r : Retirement)
    {c : ContactId} : (l.foldl (addGadget x) r).contacts.contains c = true ↔
      (∃ gadget ∈ l, ∃ registration, x.gadgets.get? gadget = some registration ∧ c ∈ registration.mount.contacts) ∨
        r.contacts.contains c = true := by
  induction l generalizing r with
  | nil => simp
  | cons gadget rest ih =>
    rw [List.foldl_cons, ih, List.exists_mem_cons_iff, addGadget]
    cases hx : x.gadgets.get? gadget with
    | none => simp
    | some registration =>
      simp only [Names.contains_foldl_add, Option.some.injEq, exists_eq_left']
      rw [or_left_comm, or_assoc]

/-- A contact goes away only with the node that it is a contact of. -/
theorem Installation.Mirrors.node_of_retired {i : Installation} {old new : Graph} (h : i.Mirrors old) {c : ContactId}
    (hc : (Retirement.ofDiffs i (old.diff new)).contacts.contains c = true) :
    ∃ id n pin, old.nodes.get? id = some n ∧ new.nodes.contains id = false ∧ c = pinContact n.id pin := by
  rw [Retirement.ofDiffs, Retirement.contains_contacts_foldl_addGadget] at hc
  obtain ⟨gadget, hgadget, registration, hr, hc⟩ := hc.resolve_right Bool.false_ne_true
  obtain ⟨id, hid, hgadget⟩ := List.mem_filterMap.1 hgadget
  obtain ⟨hold, hnew⟩ := Graph.mem_removedNodes.1 hid
  obtain ⟨n, hn⟩ := Dict.contains_iff.1 hold
  rw [h.gadgets.get?_of_get? hn] at hgadget
  cases hgadget
  obtain ⟨registration', hr', hinputs, houtputs⟩ := h.gadgets.mounted id n hn
  rw [hr] at hr'
  cases hr'
  have hc : c ∈ n.mount.contacts := by
    rw [Mount.contacts, hinputs, houtputs] at hc
    exact hc
  obtain ⟨pin, -, rfl⟩ := n.mem_contacts_mount.1 hc
  exact ⟨id, n, pin, hn, hnew, rfl⟩

/-- Where no node comes, there is nothing to make, and new edges find the contacts of the nodes that stay. -/
theorem Workshop.exists_prepare_of_removals {w : Workshop} {i : Installation} {old new : Graph} {b : Board}
    {aspects : AspectRegistry} {naming : Naming} (hi : i.Mirrors old) (hold : old.Grounded) (ha : old.Agrees new)
    (hanchored : b.Anchored aspects naming new)
    (hno : ∀ id, new.nodes.contains id = true → old.nodes.contains id = true) :
    ∃ p, w.prepare new (old.diff new) i = .ok p := by
  have hadded : GraphDiff.addedNodes new (old.diff new) = [] := by
    refine List.eq_nil_iff_forall_not_mem.2 fun n hn => ?_
    obtain ⟨id, hid, hnew⟩ := Graph.mem_addedNodes.1 hn
    rw [hno id (Dict.contains_of_get? hid)] at hnew
    cases hnew
  have hnodes : w.prepareNodes new (old.diff new) i = .ok {} := by
    rw [prepareNodes, hadded]
    rfl
  refine ⟨{}, prepare_of_prepareNodes hanchored hnodes fun id n pin hn hpin => ?_⟩
  obtain ⟨m, hm⟩ := Dict.contains_iff.1 (hno id (Dict.contains_of_get? hn))
  have hpin' : m.pins.contains pin = true := (ha.nodes id m n hm hn).contains_pins_iff.1 hpin
  have hin : i.store.contains (pinContact id pin) = true := (hi.contacts _).2 ⟨id, m, pin, hm, hpin', rfl⟩
  have hstays : (Retirement.ofDiffs i (old.diff new)).contacts.contains (pinContact id pin) = false := by
    rw [Bool.eq_false_iff]
    intro hc
    obtain ⟨id', n', pin', hn', hgone, he⟩ := hi.node_of_retired hc
    rw [hold.node_id id' n' hn'] at he
    have hsame := (pinContact_inj (hold.undotted id (Dict.contains_of_get? hm))
      (hold.undotted id' (Dict.contains_of_get? hn')) he).1
    rw [← hsame, Dict.contains_of_get? hn] at hgone
    cases hgone
  rw [checkContact, Installation.keepsContact, hin, hstays]
  rfl

/-! ## Plans -/

namespace LiveBoard

variable {r : AspectRegistry} {naming : Naming} {b : LiveBoard}

/-- A plan that only takes parts away is granted, as long as no wire outlives a gadget that it names. -/
theorem Kept.granted (h : b.Kept r naming) (hn : naming.Faithful) (w : Workshop) {plan : Plan} {x : BoundBoard}
    {board : Board} (hx : b.binder.bound = some x) (hedit : plan.edit.apply x.board = .ok board)
    (ht : x.board.Thins board) : (b.applyPlan w plan).2.receipt.isOk = true := by
  have hs := h.binder.settled x hx
  have ht := ht.normalize hs.normal
  have hvalid := ht.validate hs.valid
  obtain ⟨g, hg, hno⟩ := ht.realize hn hs.valid hs.realized
  have hcandidate := h.binder.candidate_of_realize hx hedit hvalid hg
  have hagrees : b.graph.Agrees g := by
    have hbeside := (Board.beside_of_apply hedit).normalize naming
    exact hbeside.agrees hn hs.valid hvalid (h.binder.grounds hx) (Board.grounds_of_realize hg)
  have hgraph : b.graph = x.graph := Binder.graph_of_bound hx
  obtain ⟨p, hp⟩ := w.exists_prepare_of_removals h.mirrors h.binder.grounded hagrees
    (Board.anchored_of_realize hn hvalid hg) (hgraph ▸ hno)
  have hcheck : w.checkInstallation b.installation g (b.binder.graph.diff g) = .ok () := by
    rw [Workshop.checkInstallation, show w.prepare g (b.binder.graph.diff g) b.installation = .ok p from hp]
  have hok := (Binder.applyPlan_of_propose (Binder.propose_of_candidate hcandidate hcheck)).1
  simp only [LiveBoard.applyPlan, hok, if_true]

theorem exists_bound {b : LiveBoard} {gadget : GadgetId} (h : b.hasGadget gadget = true) :
    ∃ x, b.binder.bound = some x ∧ b.board = x.board := by
  unfold hasGadget LiveBoard.board Binder.board? at *
  cases hx : b.binder.bound with
  | none =>
    rw [hx] at h
    cases h
  | some x => exact ⟨x, rfl, rfl⟩

theorem Kept.granted_unmount (h : b.Kept r naming) (hn : naming.Faithful) (w : Workshop) {plan : Plan}
    {gadget : GadgetId} (hplan : plan.edit = .unmountGadget gadget) (hg : b.hasGadget gadget = true) :
    (b.applyPlan w plan).2.receipt.isOk = true := by
  obtain ⟨x, hx, hboard⟩ := exists_bound hg
  rw [hasGadget, hboard] at hg
  obtain ⟨board, hunmount⟩ := Board.exists_unmount hg
  exact h.granted hn w hx (hplan ▸ hunmount) (Board.thins_unmount hunmount)

theorem Kept.granted_removeWire (h : b.Kept r naming) (hn : naming.Faithful) (w : Workshop) {plan : Plan}
    {wire : Wire} (hplan : plan.edit = .removeWire wire.id) (hw : wire ∈ b.board.wires) :
    (b.applyPlan w plan).2.receipt.isOk = true := by
  rw [LiveBoard.board, Binder.board?] at hw
  cases hx : b.binder.bound with
  | none =>
    rw [hx] at hw
    cases hw
  | some x =>
    rw [hx] at hw
    obtain ⟨board, hremove⟩ := Board.exists_removeWire hw
    exact h.granted hn w hx (hplan ▸ hremove) (Board.thins_removeWire hremove)

end LiveBoard

/-! ## Requests -/

/-- An answer comes with a receipt that is no refusal. -/
def Granted (answer : Except HostError PlanOutcome) : Prop :=
  ∃ outcome, answer = .ok outcome ∧ outcome.receipt.isOk = true

namespace Host

variable {h : Host}

theorem granted_applyPlan {id : BoardId} {b : LiveBoard} {plan : Plan} (hb : h.boards.get? id = some b)
    (hok : (b.applyPlan h.workshop plan).2.receipt.isOk = true) : Granted (h.applyPlan id plan).2 := by
  refine ⟨(b.applyPlan h.workshop plan).2, ?_, hok⟩
  rw [applyPlan, onBoard, hb]

theorem granted_unmount {id : BoardId} {b : LiveBoard} {gadget : GadgetId} (hb : h.boards.get? id = some b)
    (hg : b.hasGadget gadget = true) (hok : Granted (h.applyPlan id { edit := .unmountGadget gadget }).2) :
    Granted (h.unmount id gadget).2 := by
  obtain ⟨outcome, ho, hok⟩ := hok
  refine ⟨outcome, ?_, hok⟩
  simp only [unmount, hb, hg, if_true, insistOn, ho, Except.bind, granted, hok]

/-- After any events, every gadget of a board can be unmounted and every wire of it can be removed, whoever asks and for
whatever reason. -/
theorem removals_granted (h : Host) (hnaming : h.naming.Faithful) (hboards : h.boards = ∅) (events : List HostEvent)
    (id : BoardId) (b : LiveBoard) (hb : (h.after events).boards.get? id = some b) :
    (∀ gadget, b.hasGadget gadget = true →
      Granted ((h.after events).unmount id gadget).2 ∧
      ∀ principal reason,
        Granted ((h.after events).applyPlan id { edit := .unmountGadget gadget, principal, reason }).2) ∧
    ∀ wire ∈ b.board.wires, ∀ principal reason,
      Granted ((h.after events).applyPlan id { edit := .removeWire wire.id, principal, reason }).2 := by
  have hkept : b.Kept h.aspects h.naming := (lasting_kept hnaming).all_after hboards events id b hb
  constructor
  · intro gadget hg
    have hplan : ∀ principal reason,
        Granted ((h.after events).applyPlan id { edit := .unmountGadget gadget, principal, reason }).2 :=
      fun principal reason => granted_applyPlan hb (hkept.granted_unmount hnaming _ rfl hg)
    exact ⟨granted_unmount hb hg (hplan "" ""), hplan⟩
  · intro wire hw principal reason
    exact granted_applyPlan hb (hkept.granted_removeWire hnaming _ rfl hw)

/-- A gadget stands by for the source of the tapped wire. -/
def standbyBoard : Board :=
  { relayBoard with
    occupants := .ofList [
      ("s", [{ id := "g", template := "passthrough" }, { id := "k", template := "passthrough" }]),
      ("t", [{ id := "h", template := "passthrough" }])] }

/-- The wire passes to the gadget that stands by when the first one goes, and is deferred when the target goes. -/
theorem removals_granted_standby :
    let s := after { naming := .spelled } [.call (.start standbyBoard)]
    Granted (s.unmount "b" "g").2 ∧ Granted (s.unmount "b" "h").2 ∧
      Granted (s.applyPlan "b" { edit := .removeWire "w" }).2 := by
  intro s
  have hboard : (s.boards.get? "b").map (fun b => (b.hasGadget "g", b.hasGadget "h", b.board.wires.map (·.id))) =
      some (true, true, ["w"]) := by decide +kernel
  obtain ⟨b, hb, hfacts⟩ := Option.map_eq_some_iff.1 hboard
  simp only [Prod.mk.injEq] at hfacts
  obtain ⟨hg, hh, hwires⟩ := hfacts
  obtain ⟨hunmount, hremove⟩ := removals_granted { naming := .spelled } Naming.faithful_spelled rfl
    [.call (.start standbyBoard)] "b" b hb
  have hw : "w" ∈ b.board.wires.map (·.id) := hwires ▸ List.mem_cons_self
  obtain ⟨wire, hw, hid⟩ := List.mem_map.1 hw
  have hwire := hremove wire hw "" ""
  rw [hid] at hwire
  exact ⟨(hunmount "g" hg).1, (hunmount "h" hh).1, hwire⟩

end Host

end Patchbay
