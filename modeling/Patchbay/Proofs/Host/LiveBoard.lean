import Patchbay.Host.LiveBoard
import Patchbay.Proofs.Binder.Persistence
import Patchbay.Proofs.Host.Assembly

/-! Boards at work. Every request leaves a board with an installation that mirrors the graph of its binder, from the
start to the end, and no step of an installation is ever left out. -/

namespace Patchbay

namespace Binder

variable {r : AspectRegistry} {naming : Naming} {b : Binder}

theorem Kept.grounds (h : b.Kept r naming) {x : BoundBoard} (hx : b.bound = some x) :
    x.board.Grounds naming b.graph := by
  rw [graph_of_bound hx]
  exact Board.grounds_of_realize (h.settled x hx).realized

theorem Kept.grounded (h : b.Kept r naming) : b.graph.Grounded := by
  cases hx : b.bound with
  | none =>
    rw [graph, hx]
    exact Graph.grounded_empty
  | some x => exact (h.grounds hx).grounded

/-- What is proposed comes from a board beside the one that there is. -/
theorem Kept.beside (h : b.Kept r naming) {check : GraphCheck} {edit : BoardEdit} {y : BoundBoard}
    {diffs : List GraphDiff} (hp : b.propose check edit = .ok (y, diffs)) :
    y.Settled r naming ∧ ∃ x, b.bound = some x ∧ x.board.Beside y.board := by
  have hcandidate := (candidate_of_propose hp).1
  have hy := settled_of_candidate hcandidate
  rw [h.registry_eq, h.naming_eq] at hy
  obtain ⟨x, board, hx, hedit, hboard⟩ := apply_of_candidate hcandidate
  refine ⟨hy, x, hx, ?_⟩
  rw [hboard]
  exact (Board.beside_of_apply hedit).normalize b.naming

/-- What is proposed agrees with what there is. -/
theorem Kept.agrees (h : b.Kept r naming) (hn : naming.Faithful) {check : GraphCheck} {edit : BoardEdit}
    {y : BoundBoard} {diffs : List GraphDiff} (hp : b.propose check edit = .ok (y, diffs)) :
    b.graph.Agrees y.graph := by
  obtain ⟨hy, x, hx, hbeside⟩ := h.beside hp
  exact hbeside.agrees hn (h.settled x hx).valid hy.valid (h.grounds hx) (Board.grounds_of_realize hy.realized)

end Binder

namespace Installation

variable {i : Installation} {g : Graph}

theorem mirrors_empty (limits : PropagationLimits) :
    Mirrors { bench := { engine := { limits } } } .empty where
  contacts c := by
    refine ⟨fun h => absurd h Bool.false_ne_true, ?_⟩
    rintro ⟨id, n, -, hn, -⟩
    exact absurd hn (Graph.not_node_empty id n)
  gadgets :=
    ⟨fun _ => rfl, fun _ => ⟨fun h => absurd h Bool.false_ne_true, nofun⟩, nofun,
      fun id n hn => absurd hn (Graph.not_node_empty id n)⟩
  connections :=
    ⟨fun _ => Iff.rfl, fun _ => ⟨fun h => absurd h Bool.false_ne_true, nofun⟩, nofun,
      fun k e _ he => absurd he (Graph.not_edge_empty k e)⟩

theorem Mirrors.subscribe (h : i.Mirrors g) : i.subscribe.Mirrors g := by
  unfold Installation.subscribe Executor.subscribe
  cases i.executor.subscription <;> exact ⟨h.contacts, h.gadgets, h.connections⟩

theorem Mirrors.unsubscribe (h : i.Mirrors g) : i.unsubscribe.Mirrors g := by
  unfold Installation.unsubscribe Executor.unsubscribe
  cases i.executor.subscription <;> exact ⟨h.contacts, h.gadgets, h.connections⟩

theorem wired_subscribe (hw : i.store.Wired) : i.subscribe.store.Wired := by
  unfold Installation.subscribe Executor.subscribe
  cases i.executor.subscription <;> exact ⟨hw.contact_id, hw.connection_id, hw.ends, hw.numbered, hw.listed⟩

structure Bare (i : Installation) : Prop where
  contacts_eq : i.store.contacts = ∅
  connections_eq : i.store.connections = ∅
  registrations_eq : i.executor.gadgets = ∅
  gadgets_eq : i.gadgets = ∅
  edges_eq : i.connections = ∅

/-- What mirrors the graph without nodes is bare. -/
theorem Mirrors.bare (h : i.Mirrors .empty) : i.Bare := by
  have hgadgets (id : NodeId) : i.gadgets.get? id = none := h.gadgets.get?_eq id
  have hedges (k : EdgeId) : i.connections.get? k = none := by
    rw [← Dict.contains_eq_false_iff, Bool.eq_false_iff, ne_eq, h.connections.contains_iff]
    exact Bool.false_ne_true
  refine ⟨Dict.eq_empty fun c => ?_, Dict.eq_empty fun id => ?_, Dict.eq_empty fun r => ?_,
    Dict.eq_empty hgadgets, Dict.eq_empty hedges⟩
  · rw [← Dict.contains_eq_false_iff, Bool.eq_false_iff, ne_eq, h.contacts]
    rintro ⟨id, n, -, hn, -⟩
    exact Graph.not_node_empty id n hn
  · rw [← Dict.contains_eq_false_iff, Bool.eq_false_iff, ne_eq, h.connections.made_iff]
    rintro ⟨k, hk⟩
    rw [hedges] at hk
    cases hk
  · rw [← Dict.contains_eq_false_iff, Bool.eq_false_iff, ne_eq, h.gadgets.registered_iff]
    rintro ⟨id, hid⟩
    rw [hgadgets] at hid
    cases hid

end Installation

namespace LiveBoard

variable {r : AspectRegistry} {naming : Naming} {b : LiveBoard}

/-- What a board at work never loses. -/
structure Kept (r : AspectRegistry) (naming : Naming) (b : LiveBoard) : Prop where
  binder : b.binder.Kept r naming
  mirrors : b.installation.Mirrors b.graph
  wired : b.installation.store.Wired
  skipped_eq : b.installation.skipped = []

theorem Kept.withBench (h : b.Kept r naming) {bench : Bench} (hs : b.installation.bench.SameSetup bench) :
    (b.withBench bench).Kept r naming :=
  ⟨h.binder, h.mirrors.sameSetup hs, hs.network.wired h.wired, h.skipped_eq⟩

theorem Kept.settle (h : b.Kept r naming) (propagation : PropagationStats) :
    (b.settle propagation).1.Kept r naming :=
  h.withBench (Bench.sameSetup_settleWith ..)

theorem Kept.takeNotes (h : b.Kept r naming) : b.takeNotes.1.Kept r naming :=
  h.withBench (.of_engine rfl (.refl _) rfl)

theorem Kept.listen (h : b.Kept r naming) (l : Listener) : (b.listen l).Kept r naming where
  binder := h.binder
  mirrors := ⟨h.mirrors.contacts, h.mirrors.gadgets, h.mirrors.connections⟩
  wired := ⟨h.wired.contact_id, h.wired.connection_id, h.wired.ends, h.wired.numbered, h.wired.listed⟩
  skipped_eq := h.skipped_eq

theorem update_cases {contact : ContactId} {value : Json} {x : LiveBoard × UpdateReport}
    (h : b.update contact value = .ok x) :
    ∃ engine stats, b.installation.bench.engine.propagate contact value = .ok (engine, stats) ∧
      b.installation.bench.SameSetup { b.installation.bench with engine } ∧
      x = (b.withBench { b.installation.bench with engine }).settle stats := by
  obtain ⟨⟨engine, stats⟩, hp, h⟩ := ok_of_bind h
  have hp := ok_of_mapError hp
  exact ⟨engine, stats, hp,
    .of_engine rfl (Engine.advances_propagate hp).toSameNetwork (Engine.limits_propagate hp), (Except.ok.inj h).symm⟩

/-- The execution that is asked for stands before those that it leads to. -/
theorem execute_cases {gadget : GadgetId} {x : LiveBoard × UpdateReport} (h : b.execute gadget = .ok x) :
    ∃ bench execution, b.installation.bench.execute gadget false = .ok (bench, execution) ∧
      b.installation.bench.SameSetup bench ∧
      x = (((b.withBench bench).settle {}).1, { ((b.withBench bench).settle {}).2 with
        executions := execution :: ((b.withBench bench).settle {}).2.executions }) := by
  unfold LiveBoard.execute at h
  split at h
  · obtain ⟨⟨bench, execution⟩, he, h⟩ := ok_of_bind h
    have he := ok_of_mapError he
    exact ⟨bench, execution, he, Bench.sameSetup_execute he, (Except.ok.inj h).symm⟩
  · cases h

theorem Kept.update (h : b.Kept r naming) {contact : ContactId} {value : Json} {b' : LiveBoard}
    {report : UpdateReport} (hu : b.update contact value = .ok (b', report)) : b'.Kept r naming := by
  obtain ⟨engine, stats, -, hs, he⟩ := update_cases hu
  obtain rfl : b' = _ := congrArg Prod.fst he
  exact (h.withBench hs).settle stats

theorem Kept.execute (h : b.Kept r naming) {gadget : GadgetId} {b' : LiveBoard} {report : UpdateReport}
    (hx : b.execute gadget = .ok (b', report)) : b'.Kept r naming := by
  obtain ⟨bench, execution, -, hs, he⟩ := execute_cases hx
  obtain rfl : b' = _ := congrArg Prod.fst he
  exact (h.withBench hs).settle {}

/-- A board whose binder has moved on to a new graph is kept once what leads to that graph is installed. -/
theorem kept_of_install {old : Graph} {p : Preparation} (hb : b.binder.Kept r naming)
    (hm : b.installation.Mirrors old) (hw : b.installation.store.Wired) (hs : b.installation.skipped = [])
    (hold : old.Grounded) (ha : old.Agrees b.graph) (hp : p.Ready old b.graph) :
    (b.install (old.diff b.graph) p).1.Kept r naming := by
  obtain ⟨hm', hw', hs'⟩ := hm.install hw hold hb.grounded ha hp
  have hkept : Kept r naming
      { b with installation := (b.installation.install b.graph (old.diff b.graph) p).1 } :=
    ⟨hb, hm', hw', hs'.trans hs⟩
  exact hkept.settle _

/-- What a board is that has just been adopted. -/
def fresh (binder : Binder) (limits : PropagationLimits) (maxRounds : Nat) (board : Board) : LiveBoard where
  id := board.id
  binder
  installation := Installation.subscribe { bench := { engine := { limits } } }
  maxRounds

theorem start_eq_ok {w : Workshop} {binder : Binder} {limits : PropagationLimits} {maxRounds : Nat} {board : Board}
    {x : LiveBoard × UpdateReport} :
    start w binder limits maxRounds board = .ok x ↔
      ∃ c receipt p, binder.adopt w.checkNodes board = .ok (c, receipt) ∧
        w.prepare c.graph (Graph.empty.diff c.graph) {} = .ok p ∧
        x = (fresh c limits maxRounds board).install (Graph.empty.diff c.graph) p := by
  constructor
  · intro h
    obtain ⟨⟨c, receipt⟩, ha, h⟩ := ok_of_bind h
    obtain ⟨p, hp, h⟩ := ok_of_bind h
    exact ⟨c, receipt, p, ok_of_mapError ha, hp, (Except.ok.inj h).symm⟩
  · rintro ⟨c, receipt, p, ha, hp, rfl⟩
    rw [start, ha]
    simp only [Except.mapError, bind, Except.bind, hp]
    rfl

theorem id_of_start {w : Workshop} {binder : Binder} {limits : PropagationLimits} {maxRounds : Nat} {board : Board}
    {report : UpdateReport} (h : start w binder limits maxRounds board = .ok (b, report)) : b.id = board.id := by
  obtain ⟨_, _, _, -, -, he⟩ := start_eq_ok.1 h
  exact congrArg (·.1.id) he

theorem kept_of_start {w : Workshop} {binder : Binder} {limits : PropagationLimits} {maxRounds : Nat}
    {board : Board} {report : UpdateReport} (hb : binder.Kept r naming)
    (h : start w binder limits maxRounds board = .ok (b, report)) : b.Kept r naming := by
  obtain ⟨c, receipt, p, ha, hp, he⟩ := start_eq_ok.1 h
  obtain rfl : b = _ := congrArg Prod.fst he
  have hc : c.Kept r naming := hb.adopt ha
  have hagrees := Graph.agrees_empty_left c.graph
  have hready := Workshop.ready_of_prepare (Installation.mirrors_empty {}) Graph.grounded_empty hc.grounded hagrees hp
  exact kept_of_install (b := fresh c limits maxRounds board) hc (Installation.mirrors_empty limits).subscribe
    (Installation.wired_subscribe ContactStore.wired_empty) rfl Graph.grounded_empty hagrees hready

theorem prepare_of_checkInstallation {w : Workshop} {i : Installation} {g : Graph} {diffs : List GraphDiff}
    (h : w.checkInstallation i g diffs = .ok ()) : ∃ p, w.prepare g diffs i = .ok p := by
  unfold Workshop.checkInstallation at h
  split at h
  · next p hp => exact ⟨p, hp⟩
  · cases h

/-- A plan is carried out, for the graph that it leads to could be prepared, or it leaves all but the receipts alone. -/
theorem Kept.applyPlan_cases (h : b.Kept r naming) (hn : naming.Faithful) (w : Workshop) (plan : Plan) :
    (∃ binder p, binder.Kept r naming ∧ b.board.Beside (LiveBoard.board { b with binder }) ∧
      b.graph.Persists binder.graph (b.graph.diff binder.graph) ∧
      w.prepare binder.graph (b.graph.diff binder.graph) b.installation = .ok p ∧
      (b.applyPlan w plan).1 = (LiveBoard.install { b with binder } (b.graph.diff binder.graph) p).1) ∨
    ∃ binder, binder.Kept r naming ∧ binder.bound = b.binder.bound ∧ (b.applyPlan w plan).1 = { b with binder } := by
  have hb := h.binder.applyPlan (w.checkInstallation b.installation) plan
  have hcases := b.binder.applyPlan_cases (w.checkInstallation b.installation) plan
  cases happly : b.binder.applyPlan (w.checkInstallation b.installation) plan with
  | mk binder receipt =>
    rw [happly] at hb hcases
    rcases hcases with ⟨y, diffs, hp, hok, hdiffs, hbinder⟩ | ⟨hok, -, hbinder⟩
    · obtain ⟨-, hd, hcheck⟩ := Binder.candidate_of_propose hp
      obtain ⟨-, x, hx, hbeside⟩ := h.binder.beside hp
      have hbound : binder.bound = some y := by rw [show binder = _ from hbinder]
      have hgraph : binder.graph = y.graph := Binder.graph_of_bound hbound
      have hboard : b.board.Beside (LiveBoard.board { b with binder }) := by
        simpa only [LiveBoard.board, Binder.board?, hx, hbound, Option.map_some, Option.getD_some] using hbeside
      have hreceipt : receipt.diffs = b.graph.diff binder.graph := by
        rw [show receipt.diffs = diffs from hdiffs, hd, hgraph]
        rfl
      have hpersists : b.graph.Persists binder.graph receipt.diffs := by
        have hgranted : (b.binder.applyPlan (w.checkInstallation b.installation) plan).2.isOk = true := by rwa [happly]
        have hkept := h.binder.persists hn hgranted
        rwa [happly] at hkept
      rw [hreceipt] at hpersists
      -- the binder granted the plan only because the graph could be prepared
      obtain ⟨p, hprepare⟩ := prepare_of_checkInstallation hcheck
      rw [← hdiffs, ← hgraph, hreceipt] at hprepare
      refine .inl ⟨binder, p, hb, hboard, hpersists, hprepare, ?_⟩
      simp only [LiveBoard.applyPlan, happly, show receipt.isOk = true from hok, if_true, hreceipt]
      simp only [show w.prepare (LiveBoard.graph { b with binder }) _ _ = _ from hprepare]
    · have hbound : binder.bound = b.binder.bound := by rw [show binder = _ from hbinder]
      refine .inr ⟨binder, hb, hbound, ?_⟩
      simp only [LiveBoard.applyPlan, happly, show receipt.isOk = false from hok, Bool.false_eq_true, if_false]

theorem Kept.applyPlan (h : b.Kept r naming) (hn : naming.Faithful) (w : Workshop) (plan : Plan) :
    (b.applyPlan w plan).1.Kept r naming := by
  rcases h.applyPlan_cases hn w plan with ⟨binder, p, hb, -, hpersists, hprepare, he⟩ | ⟨binder, hb, hbound, he⟩
  · have hagrees := hpersists.agrees
    have hready := Workshop.ready_of_prepare h.mirrors h.binder.grounded hb.grounded hagrees hprepare
    rw [he]
    exact kept_of_install hb h.mirrors h.wired h.skipped_eq h.binder.grounded hagrees hready
  · have hgraph : binder.graph = b.graph := by rw [LiveBoard.graph, Binder.graph, Binder.graph, hbound]
    have hmirrors : b.installation.Mirrors binder.graph := hgraph ▸ h.mirrors
    rw [he]
    exact ⟨hb, hmirrors, h.wired, h.skipped_eq⟩

/-- A board that is closed leaves nothing in place. -/
theorem Kept.close (h : b.Kept r naming) :
    b.close.installation.Bare ∧ b.close.installation.skipped = [] := by
  obtain ⟨hm, hs⟩ := h.mirrors.dismantle (p := {}) h.wired h.binder.grounded
  have hskipped (i : Installation) : i.unsubscribe.skipped = i.skipped := by
    unfold Installation.unsubscribe Executor.unsubscribe
    cases i.executor.subscription <;> rfl
  exact ⟨Installation.Mirrors.bare hm.unsubscribe, (hskipped _).trans (hs.trans h.skipped_eq)⟩

end LiveBoard

end Patchbay
