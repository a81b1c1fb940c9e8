import Patchbay.Proofs.Host.Persistence
import Patchbay.Proofs.Host.Standstill
import Patchbay.Proofs.Host.Workshop
import Patchbay.Proofs.Propagation.Passing

/-! The wires of a board are fed. New edges are due from the moment that they are made until the sources of all of them
pass on what they hold; and from then on calls leave nothing to carry, whatever is written and whoever answers. -/

namespace Patchbay

/-! ## Installing -/

/-- All lattices at hand for new contacts guard their carriers. -/
def Preparation.Guarded (p : Preparation) : Prop :=
  ∀ c l, p.lattices.get? c = some l → ∃ carrier, l.Guarded carrier

namespace Installation

variable {g : Graph} {p : Preparation} {s s' : ContactStore} {due : Set ContactId}

theorem fedBut_addContacts (hp : p.Guarded) (h : s.FedBut due) {node : NodeId} {pins : List (PinName × PinSpec)}
    (hs : pins.foldlM (addContact p node) s = .ok s') : s'.FedBut due := by
  refine foldlM_keeps (P := fun s : ContactStore => s.FedBut due) (fun s pin _ t h ht => ?_) h hs
  unfold addContact at ht
  simp only at ht
  split at ht
  · cases ht
  next l hl =>
  obtain ⟨carrier, hl⟩ := hp _ l hl
  exact h.register hl (ok_of_mapError ht)

theorem fedBut_dropContacts (h : s.FedBut due) {cs : List ContactId} (hs : cs.foldlM dropContact s = .ok s') :
    s'.FedBut due := by
  refine foldlM_keeps (P := fun s : ContactStore => s.FedBut due) (fun s c _ t h ht => ?_) h hs
  unfold dropContact at ht
  split at ht
  · next hr =>
    cases ht
    exact h.remove hr
  · cases ht

/-- What new connections are made with is due, and nothing else. -/
def Progress.FedButSources (s : Progress) : Prop := s.installation.store.FedBut { c | s.sources.contains c = true }

theorem fedBut_step (hp : p.Guarded) {s s' : Progress} {d : GraphDiff} (h : s.FedButSources)
    (hs : step g p s d = .ok s') :
    s'.FedButSources ∧ s'.installation.bench.engine.limits = s.installation.bench.engine.limits := by
  rcases step_cases hs with rfl | ⟨_, id, rfl⟩ | ⟨_, _, _, _, _, -, hstore, rfl⟩ | ⟨_, _, _, _, hstore, -, rfl⟩ |
    ⟨e, _, _, hc, rfl⟩
  · exact ⟨h, rfl⟩
  · exact ⟨h.dropConnection id, rfl⟩
  · exact ⟨fedBut_dropContacts h hstore, rfl⟩
  · exact ⟨fedBut_addContacts hp h hstore, rfl⟩
  · refine ⟨(h.connect hc).mono fun c hin => ?_, rfl⟩
    exact (Names.contains_add ..).2 hin

theorem fedBut_foldl_stepOrSkip (hp : p.Guarded) (diffs : List GraphDiff) {s : Progress} (h : s.FedButSources) :
    (diffs.foldl (stepOrSkip g p) s).FedButSources ∧
      (diffs.foldl (stepOrSkip g p) s).installation.bench.engine.limits = s.installation.bench.engine.limits := by
  refine foldl_keeps (P := fun t : Progress => t.FedButSources ∧
    t.installation.bench.engine.limits = s.installation.bench.engine.limits) (fun t d _ ht => ?_) ⟨h, rfl⟩
  unfold stepOrSkip
  split
  · next hs =>
    obtain ⟨hfed, hlimits⟩ := fedBut_step hp ht.1 hs
    exact ⟨hfed, hlimits.trans ht.2⟩
  · exact ht

theorem flows_flush {acc : Engine × PropagationStats} {c : ContactId} (h : acc.1.Flows due) :
    (flush acc c).1.Flows (due \ {c}) := by
  unfold flush
  split
  · next hp => exact h.propagate hp
  · next cause hp =>
    -- null is refused only by a contact that is not there, and that feeds none
    refine { h with fedBut := ⟨h.fedBut.wired, h.fedBut.sound, fun a b hab => ?_⟩ }
    refine (h.fedBut.fed a b hab).imp_right fun hd => ⟨hd, ?_⟩
    rintro rfl
    obtain ⟨_, hok⟩ := h.propagate_null (h.fedBut.wired.ends_of_feeds hab).1
    rw [hok] at hp
    cases hp

theorem flows_foldl_flush (sources : List ContactId) {acc : Engine × PropagationStats} (h : acc.1.Flows due) :
    (sources.foldl flush acc).1.Flows (due \ { c | c ∈ sources }) := by
  induction sources generalizing acc due with
  | nil => simpa using h
  | cons c rest ih =>
    have hdue : (due \ {c}) \ { x | x ∈ rest } = due \ { x | x ∈ c :: rest } := by
      ext x
      simp only [Set.mem_sdiff, Set.mem_singleton_iff, Set.mem_ofPred_eq, List.mem_cons, not_or, and_assoc]
    exact hdue ▸ ih (flows_flush h)

/-- Whatever graph is installed, all that is due has been passed on in the end. -/
theorem flows_install (hp : p.Guarded) {i : Installation} (diffs : List GraphDiff) (h : i.store.FedBut ∅)
    (ho : (i.install g diffs p).1.store.OneWay) (hd : 1 ≤ i.bench.engine.limits.maxDepth)
    (hc : 1 ≤ i.bench.engine.limits.cycleThreshold) : (i.install g diffs p).1.bench.engine.Flows ∅ := by
  obtain ⟨hfed, hlimits⟩ := fedBut_foldl_stepOrSkip (g := g) hp diffs (s := { installation := i })
    (h.mono (Set.empty_subset _))
  unfold Installation.install at ho ⊢
  set s := diffs.foldl (stepOrSkip g p) { installation := i } with hs
  have hone : s.installation.store.OneWay :=
    (advances_flush s.sources.keys (s.installation.bench.engine, {})).1.oneWay_iff.1 ho
  have hflows : s.installation.bench.engine.Flows { c | s.sources.contains c = true } :=
    ⟨hfed, hone, hlimits ▸ hd, hlimits ▸ hc⟩
  have hnone : { c | s.sources.contains c = true } \ { c | c ∈ s.sources.keys } = (∅ : Set ContactId) :=
    Set.sdiff_eq_empty.2 fun c hin => Dict.mem_keys.2 hin
  exact hnone ▸ flows_foldl_flush s.sources.keys hflows

end Installation

/-! ## Boards -/

/-- The pins of a board are on one of four lattices each, and none is both an input and an output. -/
structure Board.Plain (b : Board) (w : Workshop) : Prop where
  oneWay : b.OneWay
  lattices : ∀ name p pin l, b.pinouts.get? name = some p → pin ∈ p.inputs ∨ pin ∈ p.outputs →
    w.lattices.get ((p.lattices.get? pin).getD w.defaultLattice) = .ok l →
      l ∈ [Lattice.max, Lattice.min, Lattice.setUnion, Lattice.disjunction]

theorem Lattice.exists_guarded {l : Lattice}
    (h : l ∈ [Lattice.max, Lattice.min, Lattice.setUnion, Lattice.disjunction]) : ∃ carrier, l.Guarded carrier := by
  simp only [List.mem_cons, List.not_mem_nil, or_false] at h
  rcases h with rfl | rfl | rfl | rfl
  · exact ⟨_, Lattice.max_guarded⟩
  · exact ⟨_, Lattice.min_guarded⟩
  · exact ⟨_, Lattice.setUnion_guarded⟩
  · exact ⟨_, Lattice.disjunction_guarded⟩

theorem LatticeRegistry.mem_of_get_builtin {name : String} {l : Lattice} (h : builtin.get name = .ok l) :
    l ∈ [Lattice.max, Lattice.min, Lattice.setUnion, Lattice.disjunction] := by
  unfold get at h
  split at h
  · next hl =>
    cases h
    have hlast : ([Lattice.max, Lattice.min, Lattice.setUnion, Lattice.disjunction].foldl
        (fun d l => d.insert l.name l) (∅ : Dict Lattice)).get? name = some l := hl
    rcases Dict.mem_of_get?_foldl_insert hlast with ⟨hin, -⟩ | hnone
    · exact hin
    · cases hnone
  · cases h

theorem Board.oneWay_iff {b : Board} :
    b.OneWay ↔ ∀ p ∈ b.pinouts.values, ∀ pin ∈ p.inputs, pin ∉ p.outputs := by
  refine ⟨fun h p hp => ?_, fun h name p hp => h p (Dict.mem_values.2 ⟨name, hp⟩)⟩
  obtain ⟨name, hp⟩ := Dict.mem_values.1 hp
  exact h name p hp

instance : DecidablePred Board.OneWay := fun _ => decidable_of_iff _ Board.oneWay_iff.symm

theorem Board.OneWay.plain {b : Board} (hb : b.OneWay) {w : Workshop} (hw : w.lattices = .builtin) : b.Plain w :=
  ⟨hb, fun _ _ _ _ _ _ hl => LatticeRegistry.mem_of_get_builtin (hw ▸ hl)⟩

theorem Board.Plain.of_beside {b b' : Board} {w : Workshop} (h : b'.Plain w) (hb : b.Beside b') : b.Plain w :=
  ⟨fun name p hp => h.oneWay name p (hb.pinouts_eq ▸ hp),
    fun name p pin l hp => h.lattices name p pin l (hb.pinouts_eq ▸ hp)⟩

namespace Workshop

variable {w : Workshop} {i : Installation}

/-- The lattices at hand are those of pinouts of the board, and guard their carriers where all of those do. -/
theorem guarded_of_prepare {b : Board} {aspects : AspectRegistry} {naming : Naming} {old new : Graph}
    {p : Preparation} (ha : b.Anchored aspects naming new) (hb : b.Plain w)
    (hp : w.prepare new (old.diff new) i = .ok p) : p.Guarded := by
  intro c l hl
  obtain ⟨id, n, pin, spec, hid, hspec, -, hlattice⟩ := lattices_of_prepare hp hl
  obtain ⟨name, pinout, pin', hpinout, hpin', he⟩ := ha.lattice_eq hid hspec
  exact Lattice.exists_guarded (hb.lattices name pinout pin' l hpinout hpin' (he ▸ hlattice))

end Workshop

/-- Where pinouts keep inputs and outputs apart, so do connections. -/
theorem Installation.Mirrors.oneWay {i : Installation} {g : Graph} (h : i.Mirrors g) (hg : g.Grounded) {b : Board}
    {r : AspectRegistry} {naming : Naming} (ha : b.Anchored r naming g) (ho : b.OneWay) : i.store.OneWay := by
  rintro a m c ⟨_, x, hx, -, -, htarget⟩ ⟨_, y, hy, -, hsource, -⟩
  obtain ⟨k, e, he, -, hte⟩ := h.edge_of_connection hx
  obtain ⟨k', e', he', hse, -⟩ := h.edge_of_connection hy
  have hcontact : pinContact e.target e.targetPin = pinContact e'.source e'.sourcePin :=
    (hte.symm.trans htarget).trans (hsource.symm.trans hse)
  obtain ⟨hnode, hpin⟩ := pinContact_inj (hg.undotted _ (hg.ends k e he).2) (hg.undotted _ (hg.ends k' e' he').1)
    hcontact
  obtain ⟨n, hn, -, hin⟩ := ha.targets k e he
  obtain ⟨n', hn', hout⟩ := ha.sources k' e' he'
  rw [hnode, hn'] at hn
  cases hn
  have hdirection := (hin ho).symm.trans (hpin ▸ hout)
  cases hdirection

namespace LiveBoard

variable {r : AspectRegistry} {naming : Naming} {w : Workshop} {b b' : LiveBoard}

theorem Kept.anchored (h : b.Kept r naming) (hn : naming.Faithful) : b.board.Anchored r naming b.graph := by
  cases hx : b.binder.bound with
  | none =>
    have hgraph : b.graph = .empty := by rw [graph, Binder.graph, hx, Option.map_none, Option.getD_none]
    rw [hgraph]
    exact ⟨fun id n hid => absurd hid (Graph.not_node_empty id n), fun id n hid => absurd hid (Graph.not_node_empty id n),
      fun k e he => absurd he (Graph.not_edge_empty k e), fun k e he => absurd he (Graph.not_edge_empty k e)⟩
  | some x =>
    have hs := h.binder.settled x hx
    have hgraph : b.graph = x.graph := Binder.graph_of_bound hx
    have hboard : b.board = x.board := by rw [LiveBoard.board, Binder.board?, hx, Option.map_some, Option.getD_some]
    rw [hgraph, hboard]
    exact Board.anchored_of_realize hn hs.valid hs.realized

/-- A kept board on which nothing is left to carry, as long as its pins are plain. -/
structure Feeds (r : AspectRegistry) (naming : Naming) (w : Workshop) (b : LiveBoard) : Prop
    extends b.Kept r naming where
  flows : b.board.Plain w → b.installation.bench.engine.Flows ∅

/-- Installing feeds a board, and running its gadgets keeps it fed. -/
theorem feeds_install (hn : naming.Faithful) {diffs : List GraphDiff} {p : Preparation}
    (hk : (b.install diffs p).1.Kept r naming) (hp : b.board.Plain w → p.Guarded)
    (h : b.board.Plain w → b.store.FedBut ∅ ∧ 1 ≤ b.installation.bench.engine.limits.maxDepth ∧
      1 ≤ b.installation.bench.engine.limits.cycleThreshold) : (b.install diffs p).1.Feeds r naming w := by
  refine ⟨hk, fun hplain => ?_⟩
  obtain ⟨hfed, hdepth, hvisits⟩ := h hplain
  have hone : (b.install diffs p).1.store.OneWay :=
    hk.mirrors.oneWay hk.binder.grounded (hk.anchored hn) hplain.oneWay
  have hnetwork := (Bench.sameSetup_settleWith (fun _ => Bench.byDelay) b.maxRounds
    (b.installation.install b.graph diffs p).1.bench).network
  exact Engine.steady_flows.settleWith _ _
    (Installation.flows_install (hp hplain) diffs hfed (hnetwork.oneWay_iff.1 hone) hdepth hvisits)

theorem feeds_of_start {binder : Binder} {limits : PropagationLimits} {maxRounds : Nat} {board : Board}
    {report : UpdateReport} (hn : naming.Faithful) (hb : binder.Kept r naming) (hd : 1 ≤ limits.maxDepth)
    (hc : 1 ≤ limits.cycleThreshold) (h : start w binder limits maxRounds board = .ok (b, report)) :
    b.Feeds r naming w := by
  have hk := kept_of_start hb h
  obtain ⟨c, receipt, p, -, hp, he⟩ := start_eq_ok.1 h
  obtain rfl : b = _ := congrArg Prod.fst he
  refine feeds_install hn hk (fun hplain => ?_) fun _ => ⟨?_, hd, hc⟩
  · exact Workshop.guarded_of_prepare (hk.anchored hn) hplain hp
  · exact ContactStore.fedBut_empty.thin (Installation.wired_subscribe ContactStore.wired_empty) nofun nofun

namespace Feeds

theorem applyPlan (h : b.Feeds r naming w) (hn : naming.Faithful) (plan : Plan) :
    (b.applyPlan w plan).1.Feeds r naming w := by
  have hk := h.toKept.applyPlan hn w plan
  rcases h.applyPlan_cases hn w plan with ⟨binder, p, -, hbeside, -, hp, he⟩ | ⟨binder, hb, hbound, he⟩
  · rw [he] at hk ⊢
    refine feeds_install hn hk (fun hplain => ?_) fun hplain => ?_
    · exact Workshop.guarded_of_prepare (hk.anchored hn) hplain hp
    · have hflows := h.flows (hplain.of_beside hbeside)
      exact ⟨hflows.fedBut, hflows.maxDepth, hflows.cycleThreshold⟩
  · have hboard : LiveBoard.board { b with binder } = b.board := by
      rw [LiveBoard.board, LiveBoard.board, Binder.board?, Binder.board?, hbound]
    rw [he] at hk ⊢
    exact ⟨hk, fun hplain => h.flows (hboard ▸ hplain)⟩

theorem update (h : b.Feeds r naming w) {contact : ContactId} {value : Json} {report : UpdateReport}
    (hu : b.update contact value = .ok (b', report)) : b'.Feeds r naming w := by
  have hk := h.toKept.update hu
  obtain ⟨engine, stats, hp, -, he⟩ := update_cases hu
  obtain rfl : b' = _ := congrArg Prod.fst he
  exact ⟨hk, fun hplain => Engine.steady_flows.settleWith _ _ ((h.flows hplain).propagate_empty hp)⟩

theorem execute (h : b.Feeds r naming w) {gadget : GadgetId} {report : UpdateReport}
    (hx : b.execute gadget = .ok (b', report)) : b'.Feeds r naming w := by
  have hk := h.toKept.execute hx
  obtain ⟨bench, execution, hexecute, -, he⟩ := execute_cases hx
  obtain rfl : b' = _ := congrArg Prod.fst he
  refine ⟨hk, fun hplain => Engine.steady_flows.settleWith _ _ ?_⟩
  exact Engine.steady_flows.execute (h.flows hplain) hexecute

theorem turn (h : b.Feeds r naming w) (hn : naming.Faithful) (ht : b.Turns w b') : b'.Feeds r naming w := by
  cases ht with
  | unchanged => exact h
  | applyPlan plan => exact h.applyPlan hn plan
  | update hu => exact h.update hu
  | execute hx => exact h.execute hx

theorem listen (h : b.Feeds r naming w) (l : Listener) : (b.listen l).Feeds r naming w :=
  ⟨h.toKept.listen l, fun hplain => (h.flows hplain).of_same (h.toKept.listen l).wired rfl rfl rfl⟩

end Feeds

end LiveBoard

namespace Host

variable {h : Host}

theorem lasting_feeds (hn : h.naming.Faithful) (hd : 1 ≤ h.config.limits.maxDepth)
    (hc : 1 ≤ h.config.limits.cycleThreshold) :
    h.Lasting (LiveBoard.Feeds h.aspects h.naming h.workshop) where
  start hs := LiveBoard.feeds_of_start hn (Binder.kept_of_vacant ..) hd hc hs
  turn hb ht := hb.turn hn ht
  takeNotes hb := ⟨hb.toKept.takeNotes, hb.flows⟩
  listen l hb := hb.listen l

/-- After any events, every edge of a board has its two contacts, and joining what the one holds into the other is refused
or makes no difference; provided that pins are on plain lattices, inputs and outputs are kept apart, and calls may go as far
as one connection. -/
theorem wires_fed (h : Host) (hnaming : h.naming.Faithful) (hboards : h.boards = ∅)
    (hdepth : 1 ≤ h.config.limits.maxDepth) (hvisits : 1 ≤ h.config.limits.cycleThreshold) (events : List HostEvent)
    {id : BoardId} {b : LiveBoard} (hb : (h.after events).boards.get? id = some b) (hplain : b.board.Plain h.workshop)
    {k : EdgeId} {e : Edge} (he : b.graph.edges.get? k = some e) :
    ∃ up down, b.store.contacts.get? e.sourceContact = some up ∧ b.store.contacts.get? e.targetContact = some down ∧
      ∀ joined, down.lattice.join down.value up.value = .ok joined →
        down.lattice.equivalent joined down.value = true := by
  have hfeeds := (lasting_feeds hnaming hdepth hvisits).all_after hboards events id b hb
  have hflows := hfeeds.flows hplain
  have hedge := hfeeds.mirrors.feeds_of_edge he
  obtain ⟨hsource, htarget⟩ := hfeeds.wired.ends_of_feeds hedge
  obtain ⟨up, hup⟩ := Dict.contains_iff.1 hsource
  obtain ⟨down, hdown⟩ := Dict.contains_iff.1 htarget
  refine ⟨up, down, hup, hdown, fun joined hj => ?_⟩
  have hfed := (hflows.fedBut.fed _ _ hedge).resolve_right (Set.notMem_empty _)
  exact hfed up hup down hdown joined hj

theorem wires_fed_relay :
    ∃ b k e, (after { naming := .spelled } [.call (.start relayBoard),
        .call (.mount "b" "t" "h" "passthrough")]).boards.get? "b" = some b ∧ b.graph.edges.get? k = some e ∧
      ∃ up down, b.store.contacts.get? e.sourceContact = some up ∧ b.store.contacts.get? e.targetContact = some down ∧
        ∀ joined, down.lattice.join down.value up.value = .ok joined →
          down.lattice.equivalent joined down.value = true := by
  have hboard : ((after { naming := .spelled } [.call (.start relayBoard),
      .call (.mount "b" "t" "h" "passthrough")]).boards.get? "b").any
        (fun b => b.board.OneWay ∧ 0 < b.graph.edges.keys.length) = true := by
    decide +kernel
  obtain ⟨b, hb, hfacts⟩ := (Option.any_eq_true ..).1 hboard
  obtain ⟨hone, hedges⟩ := of_decide_eq_true hfacts
  obtain ⟨k, hk⟩ := List.exists_mem_of_length_pos hedges
  obtain ⟨e, he⟩ := Dict.contains_iff.1 (Dict.mem_keys.1 hk)
  exact ⟨b, k, e, hb, he, wires_fed { naming := .spelled } Naming.faithful_spelled rfl (by decide) (by decide) _ hb
    (hone.plain rfl) he⟩

/-! ## Two edges of one identity -/

namespace Crossed

def source : NodeId := Naming.standard.gadgetNode { id := "g", template := "passthrough" }

def sink : NodeId := Naming.standard.gadgetNode { id := "k", template := "passthrough" }

/-- The wire's name and the pin's repeat parts that the identity of an edge is made from. -/
def wire : WireId := "w\x00" ++ source ++ "\x00out"

def pin : PinName := "out\x00" ++ source ++ "\x00out"

/-- Two outputs of one gadget are wired to one input, and the parts of either edge's identity come to one text. -/
def board : Board where
  id := "b"
  slots := .ofList [("s", { requires := "source" }), ("t", { requires := "sink" })]
  occupants := .ofList [
    ("s", [{ id := "g", template := "passthrough" }]),
    ("t", [{ id := "k", template := "passthrough" }])]
  wires := [
    { id := "w", source := .ofGadget "g" pin, target := .ofGadget "k" "in" },
    { id := wire, source := .ofGadget "g" "out", target := .ofGadget "k" "in" }]
  pinouts := .ofList [
    ("source", { inputs := ["in"], outputs := ["out", pin] }),
    ("sink", { inputs := ["in"], outputs := ["out"] })]

def host : Host := { config := { maxRounds := 0 } }

def up : ContactId := pinContact source pin

def down : ContactId := pinContact sink "in"

def news : Json := .num (.int 5)

/-- Takes the wire away whose edge is connected. -/
def plan : Plan := { edit := .removeWire wire }

/-- What is written upstream does not get downstream, where it would make a difference. -/
def Misses (s : ContactStore) : Prop :=
  ∃ r, s.update up news = .ok r ∧ r.1.downstream up = [] ∧ ∃ c, r.1.contacts.get? up = some c ∧
    ∃ d, r.1.contacts.get? down = some d ∧ ∃ joined, d.lattice.join d.value c.value = .ok joined ∧
      d.lattice.equivalent joined d.value = false

def misses (s : ContactStore) : Bool :=
  (s.update up news).toOption.any fun r =>
    r.1.downstream up = [] &&
    (r.1.contacts.get? up).any fun c => (r.1.contacts.get? down).any fun d =>
      (d.lattice.join d.value c.value).toOption.any fun joined => !d.lattice.equivalent joined d.value

theorem misses_iff {s : ContactStore} : misses s = true ↔ Misses s := by
  simp only [misses, Misses, Option.any_eq_true, Bool.and_eq_true, decide_eq_true_eq, toOption_eq_some,
    Bool.not_eq_true']

/-- The plan leaves an edge between the two contacts, and there is nothing to install for it. -/
def PassesOver (b : LiveBoard) : Prop :=
  let r := b.binder.applyPlan (host.workshop.checkInstallation b.installation) plan
  r.2.diffs.isEmpty = true ∧ (r.1.board?.getD { id := "b" }).OneWay ∧
    ∃ e ∈ r.1.graph.edges.values, e.sourceContact = up ∧ e.targetContact = down

instance : DecidablePred PassesOver := fun _ => inferInstanceAs (Decidable (_ ∧ _ ∧ _))

theorem start_board : ∃ h b, host.start board = .ok h ∧ h.workshop = host.workshop ∧ h.boards.get? "b" = some b ∧
    b.id = "b" ∧ b.maxRounds = 0 ∧ Misses b.store ∧ PassesOver b := by
  have hready : (host.newBinder.adopt host.workshop.checkNodes board).toOption.any (fun r =>
      (host.workshop.prepare r.1.graph (Graph.empty.diff r.1.graph) {}).toOption.any fun p =>
        let b := LiveBoard.fresh r.1 {} 0 board
        let s := (Graph.empty.diff b.graph).foldl (Installation.stepOrSkip b.graph p) { installation := b.installation }
        s.sources.keys.all s.installation.store.still && misses s.installation.store &&
          PassesOver (b.install (Graph.empty.diff b.graph) p).1.takeNotes.1) = true := by
    decide +kernel
  obtain ⟨⟨c, receipt⟩, ha, hready⟩ := (Option.any_eq_true ..).1 hready
  obtain ⟨p, hp, hready⟩ := (Option.any_eq_true ..).1 hready
  obtain ⟨hready, hpasses⟩ := Bool.and_eq_true_iff.1 hready
  obtain ⟨hstill, hmisses⟩ := Bool.and_eq_true_iff.1 hready
  have hstart : LiveBoard.start host.workshop host.newBinder {} 0 board = .ok _ :=
    LiveBoard.start_eq_ok.2 ⟨c, receipt, p, toOption_eq_some.1 ha, toOption_eq_some.1 hp, rfl⟩
  obtain ⟨hstore, hrounds⟩ := LiveBoard.store_install (b := LiveBoard.fresh c {} 0 board) (p := p) rfl rfl
    (List.all_eq_true.1 hstill)
  have hid := LiveBoard.id_of_start hstart
  refine ⟨_, _, start_eq_ok.2 ⟨rfl, _, _, hstart, rfl⟩, workshop_keep .., get?_boards_keep _ hid, hid, hrounds,
    misses_iff.1 ?_, of_decide_eq_true hpasses⟩
  exact (congrArg misses hstore).trans hmisses

end Crossed

/-- Parts may hold what stands between parts, and so two wires may come to one edge. When the one is removed, the edge is
the other's, but stays connected as it was; and what is written at its source is carried nowhere. -/
theorem unfed_wire :
    ∃ b k e up down joined, (Crossed.host.after [.call (.start Crossed.board), .call (.applyPlan "b" Crossed.plan),
        .call (.update "b" Crossed.up Crossed.news)]).boards.get? "b" = some b ∧
      b.board.Plain Crossed.host.workshop ∧ b.graph.edges.get? k = some e ∧
      b.store.contacts.get? e.sourceContact = some up ∧ b.store.contacts.get? e.targetContact = some down ∧
      down.lattice.join down.value up.value = .ok joined ∧ down.lattice.equivalent joined down.value = false := by
  obtain ⟨h, b₁, hstart, hworkshop, hb₁, hid, hrounds, hmisses, hdiffs, hone, e, he, hsource, htarget⟩ :=
    Crossed.start_board
  obtain ⟨k, he⟩ := Dict.mem_values.1 he
  obtain ⟨⟨s, changed⟩, hu, hd, up, hup, down, hdown, joined, hj, hne⟩ := hmisses
  rw [← hworkshop] at hdiffs hone he ⊢
  obtain ⟨b, hb, hid, hstore, hbinder⟩ := get?_boards_update hb₁ hid hrounds (List.isEmpty_iff.1 hdiffs) hu hd
  refine ⟨b, k, e, up, down, joined, after_start hstart _ ▸ hb, Board.OneWay.plain ?_ (hworkshop ▸ rfl), ?_, ?_, ?_,
    hj, hne⟩
  · rw [LiveBoard.board, hbinder, hid]
    exact hone
  · rw [LiveBoard.graph, hbinder]
    exact he
  · rw [hsource, hstore]
    exact hup
  · rw [htarget, hstore]
    exact hdown

end Host

end Patchbay
