import Patchbay.Host.Config
import Patchbay.Host.LiveBoard

/-!
The host of any number of boards, each with a binder, contacts and gadgets of its own. All that the boards
share is what they are made with, the settings, and the journal.
-/

namespace Patchbay

/-- A host: what boards are made with, the settings, the boards at work, and what gadgets left in the
journal, oldest first. -/
structure Host where
  library : GadgetLibrary := .standard
  aspects : AspectRegistry := .builtin
  lattices : LatticeRegistry := .builtin
  naming : Naming := .standard
  proposers : List Proposer := []
  config : HostConfig := {}
  boards : Dict LiveBoard := ∅
  journal : List Note := []

namespace Host

def workshop (h : Host) : Workshop where
  library := h.library
  lattices := h.lattices
  defaultLattice := h.config.defaultLattice

def newBinder (h : Host) : Binder where
  registry := h.aspects
  naming := h.naming
  principal := h.config.principal
  proposers := h.proposers

def boardIds (h : Host) : List BoardId := h.boards.keys

/-- Puts a board in its place, and what its gadgets noted in the journal. -/
def keep (h : Host) (b : LiveBoard) : Host :=
  let (b, notes) := b.takeNotes
  { h with boards := h.boards.insert b.id b, journal := h.journal ++ notes }

/-- Starts a board and runs it to a standstill. One that cannot be started leaves no trace. -/
def start (h : Host) (board : Board) : Except HostError Host :=
  if h.boards.contains board.id then .error (.boardExists board.id)
  else do
    let (b, _) ← LiveBoard.start h.workshop h.newBinder h.config.limits h.config.maxRounds board
    return h.keep b

def onBoard {α : Type} (h : Host) (id : BoardId) (f : LiveBoard → LiveBoard × Except HostError α) :
    Host × Except HostError α :=
  match h.boards.get? id with
  | none => (h, .error (.boardNotFound id))
  | some b =>
    let (b, result) := f b
    (h.keep b, result)

/-- A board after a request that leaves it alone when it fails. -/
def orUnchanged {α : Type} (b : LiveBoard) (r : Except HostError (LiveBoard × α)) :
    LiveBoard × Except HostError α :=
  match r with
  | .ok (b, a) => (b, .ok a)
  | .error e => (b, .error e)

def update (h : Host) (id : BoardId) (contact : ContactId) (value : Json) :
    Host × Except HostError UpdateReport :=
  h.onBoard id fun b => orUnchanged b (b.update contact value)

def execute (h : Host) (id : BoardId) (gadget : GadgetId) : Host × Except HostError UpdateReport :=
  h.onBoard id fun b => orUnchanged b (b.execute gadget)

/-- Carries out a plan on a board. A plan that is refused has a receipt that says so. -/
def applyPlan (h : Host) (id : BoardId) (plan : Plan) : Host × Except HostError PlanOutcome :=
  h.onBoard id fun b =>
    let (b, outcome) := b.applyPlan h.workshop plan
    (b, .ok outcome)

def granted (outcome : PlanOutcome) : Except HostError PlanOutcome :=
  if outcome.receipt.isOk then .ok outcome else .error (.rejected outcome.receipt.reason)

/-- Carries out a plan on a board, which is an error where it is refused. The receipt stays in either
case. -/
def insistOn (h : Host) (id : BoardId) (plan : Plan) : Host × Except HostError PlanOutcome :=
  let (h, outcome) := h.applyPlan id plan
  (h, outcome.bind granted)

/-- Mounts a gadget without parameters into a slot. The template must be known. -/
def mount (h : Host) (id : BoardId) (slot : SlotName) (gadget : GadgetId) (template : TemplateName) :
    Host × Except HostError PlanOutcome :=
  if !h.boards.contains id then (h, .error (.boardNotFound id))
  else if !h.library.contains template then (h, .error (.gadget (.unknownTemplate template)))
  else h.insistOn id { edit := .mountGadget slot { id := gadget, template } }

/-- Unmounts a gadget, which must be declared on the board. -/
def unmount (h : Host) (id : BoardId) (gadget : GadgetId) : Host × Except HostError PlanOutcome :=
  match h.boards.get? id with
  | none => (h, .error (.boardNotFound id))
  | some b =>
    if b.hasGadget gadget then h.insistOn id { edit := .unmountGadget gadget }
    else (h, .error (.gadgetNotFound gadget))

/-- Closes a board and forgets it. What is left of the board is returned. -/
def close (h : Host) (id : BoardId) : Except HostError (Host × LiveBoard) :=
  match h.boards.get? id with
  | none => .error (.boardNotFound id)
  | some b => .ok ({ h with boards := h.boards.erase id }, b.close)

def describe (h : Host) : String :=
  "GraphExecutor \x7b library: " ++ h.library.describe ++
    ", config: RuntimeConfig \x7b limits: PropagationLimits \x7b max_depth: " ++
    Nat.repr h.config.limits.maxDepth ++ ", cycle_threshold: " ++
    Nat.repr h.config.limits.cycleThreshold ++ " \x7d, max_rounds: " ++ Nat.repr h.config.maxRounds ++
    ", default_lattice: " ++ Quoted.string h.config.defaultLattice ++
    ", principal: " ++ Quoted.string h.config.principal ++ " \x7d, .. \x7d"

end Host

end Patchbay
