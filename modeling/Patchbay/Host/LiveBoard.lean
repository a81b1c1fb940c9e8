import Patchbay.Host.Assembly
import Patchbay.Text.Quoted

/-!
Live boards: a binder and what is installed for its graph, kept in step. Every change runs the gadgets until
none is triggered, or until the rounds are used up.
-/

namespace Patchbay

/-- What a request did: the propagation it began with, the executions that followed, the rounds they took,
and whether no gadget was left to run. -/
structure UpdateReport where
  propagation : PropagationStats := {}
  executions : List Execution := []
  rounds : Nat := 0
  quiescent : Bool := false

structure PlanOutcome where
  receipt : Receipt
  report : UpdateReport

structure LiveBoard where
  id : BoardId
  binder : Binder
  installation : Installation
  maxRounds : Nat

namespace UpdateReport

def completed (r : UpdateReport) : List Execution := r.executions.filter fun x => x.status = .completed

end UpdateReport

namespace Workshop

/-- Objects to a graph whose nodes cannot be made. -/
def checkNodes (w : Workshop) : GraphCheck := fun g diffs =>
  match w.prepareNodes g diffs {} with
  | .ok _ => .ok ()
  | .error e => .error e.message

/-- Objects to a graph that cannot be installed over what is in place. -/
def checkInstallation (w : Workshop) (i : Installation) : GraphCheck := fun g diffs =>
  match w.prepare g diffs i with
  | .ok _ => .ok ()
  | .error e => .error e.message

end Workshop

namespace LiveBoard

/-! ## Reading -/

def graph (b : LiveBoard) : Graph := b.binder.graph

def board (b : LiveBoard) : Board := b.binder.board?.getD { id := b.id }

def receipts (b : LiveBoard) : List Receipt := b.binder.receipts

def store (b : LiveBoard) : ContactStore := b.installation.store

def hasGadget (b : LiveBoard) (gadget : GadgetId) : Bool := (b.board.occupant? gadget).isSome

def value (b : LiveBoard) (contact : ContactId) : Except HostError Json :=
  (b.store.value contact).mapError .contact

def contactOf? (b : LiveBoard) (gadget : GadgetId) (pin : PinName) : Option ContactId :=
  (b.graph.gadgetNode? gadget).bind fun n =>
    if n.pins.contains pin then some (pinContact n.id pin) else none

def pinValue (b : LiveBoard) (gadget : GadgetId) (pin : PinName) : Except HostError Json :=
  match b.contactOf? gadget pin with
  | some contact => b.value contact
  | none => .error (.pinNotFound gadget pin)

def gadgetStats? (b : LiveBoard) (gadget : GadgetId) : Option GadgetStats :=
  (b.installation.executor.gadgets.get? gadget).map (·.stats)

def totals (b : LiveBoard) : PropagationTotals := b.installation.bench.engine.totals

def describe (b : LiveBoard) : String :=
  "BoardContext \x7b id: " ++ Quoted.wrapped "BoardId" (Quoted.string b.id) ++
    ", max_rounds: " ++ Nat.repr b.maxRounds ++ ", .. \x7d"

/-! ## Working -/

def withBench (b : LiveBoard) (bench : Bench) : LiveBoard :=
  { b with installation := { b.installation with bench } }

def listen (b : LiveBoard) (l : Listener) : LiveBoard :=
  { b with installation := b.installation.withStore (b.store.subscribe l).1 }

def takeNotes (b : LiveBoard) : LiveBoard × List Note :=
  (b.withBench { b.installation.bench with journal := [] }, b.installation.bench.journal)

def settle (b : LiveBoard) (propagation : PropagationStats) : LiveBoard × UpdateReport :=
  let (bench, q) := b.installation.bench.settle b.maxRounds
  (b.withBench bench,
    { propagation, executions := q.executions, rounds := q.rounds, quiescent := q.quiescent })

/-- Installs the graph that the binder has come to, and runs the gadgets. -/
def install (b : LiveBoard) (diffs : List GraphDiff) (p : Preparation) : LiveBoard × UpdateReport :=
  let (installation, flushed) := b.installation.install b.graph diffs p
  { b with installation }.settle flushed

/-- Starts a board: the binder takes it on, and the graph is installed once it is known that all of it can
be. The plans of proposers need only nodes that can be made. -/
def start (w : Workshop) (binder : Binder) (limits : PropagationLimits) (maxRounds : Nat)
    (board : Board) : Except HostError (LiveBoard × UpdateReport) := do
  let (binder, _) ← (binder.adopt w.checkNodes board).mapError .binder
  let diffs := Graph.empty.diff binder.graph
  let p ← w.prepare binder.graph diffs {}
  let installation : Installation := { bench := { engine := { limits } } }
  let b : LiveBoard := { id := board.id, binder, installation := installation.subscribe, maxRounds }
  return b.install diffs p

/-- Joins a value into a contact, and runs the gadgets. -/
def update (b : LiveBoard) (contact : ContactId) (value : Json) :
    Except HostError (LiveBoard × UpdateReport) := do
  let bench := b.installation.bench
  let (engine, stats) ← (bench.engine.propagate contact value).mapError .contact
  return (b.withBench { bench with engine }).settle stats

/-- Executes a gadget if its inputs are enough to fire, and runs the gadgets. Its own execution comes first
in the report. -/
def execute (b : LiveBoard) (gadget : GadgetId) : Except HostError (LiveBoard × UpdateReport) :=
  if b.installation.executor.contains gadget then do
    let (bench, x) ← (b.installation.bench.execute gadget false).mapError .gadget
    let (b, report) := (b.withBench bench).settle {}
    return (b, { report with executions := x :: report.executions })
  else .error (.gadgetNotFound gadget)

/-- Carries out a plan, unless the binder refuses it or its graph cannot be installed. -/
def applyPlan (b : LiveBoard) (w : Workshop) (plan : Plan) : LiveBoard × PlanOutcome :=
  let (binder, receipt) := b.binder.applyPlan (w.checkInstallation b.installation) plan
  let b := { b with binder }
  if receipt.isOk then
    let p := match w.prepare b.graph receipt.diffs b.installation with
      | .ok p => p
      | .error _ => {}
    let (b, report) := b.install receipt.diffs p
    (b, { receipt, report })
  else (b, { receipt, report := { quiescent := true } })

/-- Takes everything away that is installed. The binder stays as it is. -/
def close (b : LiveBoard) : LiveBoard :=
  let (installation, _) := b.installation.install b.graph (b.graph.diff .empty) {}
  { b with installation := installation.unsubscribe }

end LiveBoard

end Patchbay
