import Patchbay.Graph.Realization
import Patchbay.Plan.Edit
import Patchbay.Receipt

/-!
The binder of a board: it keeps the board and the graph that the board comes to, and a receipt for every
request. A request is carried out on the whole: the board that it leads to is brought into normal form,
validated and realized, and takes the place of the old one only if all of that succeeds and a check of the
new graph has nothing against it.
-/

namespace Patchbay

inductive BinderError where
  | unrealizable (cause : RealizationError)
  | edit (cause : EditError)
  | occupied (board : BoardId)
  | vacant
  deriving DecidableEq

def BinderError.message : BinderError → String
  | .unrealizable cause => cause.message
  | .edit cause => cause.message
  | .occupied board => "binder already initialized for board " ++ board
  | .vacant => "binder not initialized"

/-- Looks at a new graph and the steps that lead to it, and may object with a reason. -/
abbrev GraphCheck := Graph → List GraphDiff → Except String Unit

/-- One who reads a new board and proposes plans. A proposer may fail, and is then passed over. -/
structure Proposer where
  name : String
  priority : Int := 0
  propose : Board → Except String (List Plan)

structure BoundBoard where
  board : Board
  graph : Graph

/-- A binder: what it realizes boards with, the principal it signs with, the proposers that look at a new
board, its board if it has one yet, and every receipt it has issued, oldest first. -/
structure Binder where
  registry : AspectRegistry
  naming : Naming := .standard
  principal : String := "binder"
  proposers : List Proposer := []
  bound : Option BoundBoard := none
  receipts : List Receipt := []

namespace Proposer

/-- Whether one proposer is not behind another: a lower priority comes first, then a lesser name. -/
def le (a b : Proposer) : Bool :=
  if a.priority ≠ b.priority then a.priority < b.priority else a.name ≤ b.name

/-- Proposers in the order in which they are heard. Those that are level stay in the order given. -/
def sorted (l : List Proposer) : List Proposer := l.mergeSort le

def principal (p : Proposer) : String := "rewriter:" ++ p.name

end Proposer

namespace Binder

def noCheck : GraphCheck := fun _ _ => .ok ()

def board? (b : Binder) : Option Board := b.bound.map (·.board)

def graph (b : Binder) : Graph := (b.bound.map (·.graph)).getD .empty

/-- Brings a board into normal form, validates it and realizes it. -/
def realize (b : Binder) (board : Board) : Except RealizationError BoundBoard := do
  let board := board.normalize b.naming
  board.validate.mapError .board
  return { board, graph := ← board.realize b.registry b.naming }

/-- The identity of the next receipt: that of the board, and the receipt's number. -/
def nextReceiptId (b : Binder) : ReceiptId :=
  (b.board?.map (·.id)).getD "" ++ "#" ++ Nat.repr (b.receipts.length + 1)

def issue (b : Binder) (receipt : ReceiptId → Receipt) : Binder × Receipt :=
  let r := receipt b.nextReceiptId
  ({ b with receipts := b.receipts ++ [r] }, r)

/-! ## Plans -/

def candidate (b : Binder) (edit : BoardEdit) : Except BinderError BoundBoard :=
  match b.bound with
  | none => .error .vacant
  | some bound => do
    let board ← (edit.apply bound.board).mapError .edit
    (b.realize board).mapError .unrealizable

/-- What an edit leads to and the steps to its graph, or in words why it cannot be. -/
def propose (b : Binder) (check : GraphCheck) (edit : BoardEdit) :
    Except String (BoundBoard × List GraphDiff) := do
  let bound ← (b.candidate edit).mapError BinderError.message
  let diffs := b.graph.diff bound.graph
  check bound.graph diffs
  return (bound, diffs)

/-- Carries out a plan, unless it cannot be or the check objects. In either case there is one receipt. -/
def applyPlan (b : Binder) (check : GraphCheck) (plan : Plan) : Binder × Receipt :=
  let principal := if plan.principal = "" then b.principal else plan.principal
  let reason := if plan.reason = "" then plan.edit.describe else plan.reason
  match b.propose check plan.edit with
  | .ok (bound, diffs) =>
    { b with bound := some bound }.issue fun id => .granted id principal reason diffs
  | .error message => b.issue fun id => .refused id principal message

/-! ## A new board -/

/-- The plan with a proposer as its principal, unless it names another. -/
def signedBy (p : Proposer) (plan : Plan) : Plan :=
  if plan.principal = "" then { plan with principal := p.principal } else plan

/-- Carries out the plans that a proposer has for the board as it stands. -/
def hear (check : GraphCheck) (b : Binder) (p : Proposer) : Binder :=
  match b.board?.map p.propose with
  | some (.ok plans) => plans.foldl (fun b plan => (b.applyPlan check (signedBy p plan)).1) b
  | _ => b

def hearAll (b : Binder) (check : GraphCheck) : Binder :=
  (Proposer.sorted b.proposers).foldl (hear check) b

/-- Takes a board on, and hears the proposers about it. A binder takes one board only. The receipt is that of
the board as declared; the check looks at what is proposed. -/
def adopt (b : Binder) (check : GraphCheck) (board : Board) : Except BinderError (Binder × Receipt) :=
  match b.bound with
  | some bound => .error (.occupied bound.board.id)
  | none => do
    let bound ← (b.realize board).mapError .unrealizable
    let (b, receipt) := { b with bound := some bound }.issue fun id =>
      .granted id b.principal "initialize" (Graph.empty.diff bound.graph)
    return (b.hearAll check, receipt)

end Binder

end Patchbay
