import Patchbay.Gadget.Executor

/-!
The bench: an engine and an executor at work. Gadgets that read changed contacts are executed round after
round until none is left or the rounds are used up. Within a round the gadgets take their turns in order;
those with a delay read their inputs at their turn and answer after all the others.
-/

namespace Patchbay

/-- An engine and an executor, with the journal that gadgets write into and the time. -/
structure Bench where
  engine : Engine := {}
  executor : Executor := {}
  journal : List Note := []
  now : Instant := 0

/-- A gadget that has read its inputs and has yet to answer. -/
structure Waiting where
  gadget : GadgetId
  delay : Nat
  inputs : PinValues

/-- What running to a standstill did: the rounds, the executions round by round, and whether a standstill
was reached. -/
structure Quiescence where
  rounds : Nat := 0
  executions : List Execution := []
  quiescent : Bool := false

namespace Bench

/-! ## One gadget -/

def setRegistration (b : Bench) (id : GadgetId) (r : Registration) : Bench :=
  { b with executor := { b.executor with gadgets := b.executor.gadgets.insert id r } }

/-- The current value of the contact that an input pin is bound to; a pin that is not bound holds null. -/
def pinValue (b : Bench) (r : Registration) (pin : PinName) : Except ContactError Json :=
  match r.mount.inputs.get? pin with
  | some contact => b.engine.store.value contact
  | none => .ok .null

def readInputs (b : Bench) (r : Registration) : Except ContactError PinValues :=
  r.gadget.inputs.foldlM (fun values pin => return values.insert pin (← b.pinValue r pin)) ∅

def snapshot (b : Bench) (id : GadgetId) : Except GadgetError (Registration × PinValues) := do
  let r ← b.executor.registration id
  let inputs ← (b.readInputs r).mapError .contact
  return (r, inputs)

def note (b : Bench) (r : Registration) (x : Execution) : Bench × Execution :=
  (b.setRegistration x.gadget { r with stats := r.stats.record x }, x)

def skip (b : Bench) (id : GadgetId) (r : Registration) (inputs : PinValues) : Bench × Execution :=
  b.note r { gadget := id, status := .skipped, inputs }

/-- Writes an output to the contact that its pin is bound to. A pin without a contact is passed over, and an
output that its contact refuses is counted. -/
def deliverOutput (mount : Mount) (acc : Engine × PropagationStats) (output : PinName × Json) :
    Engine × PropagationStats :=
  match mount.outputs.get? output.1 with
  | none => acc
  | some contact =>
    match acc.1.propagate contact output.2 with
    | .ok (engine, stats) => (engine, acc.2.absorb stats)
    | .error _ => (acc.1, { acc.2 with rejected := acc.2.rejected + 1 })

/-- Calls a gadget with the inputs it has read, and writes its outputs in the order of their pins. -/
def fire (b : Bench) (id : GadgetId) (r : Registration) (inputs : PinValues) : Bench × Execution :=
  let call : GadgetCall := ⟨b.now, inputs, ⟨id, r.mount.params⟩⟩
  let reply := r.gadget.process r.calls call
  let r := { r with calls := r.calls ++ [call] }
  let b := { b with journal := b.journal ++ reply.notes }
  match reply.result with
  | .error cause => b.note r { gadget := id, status := .failed cause, inputs }
  | .ok outputs =>
    let (engine, propagation) := outputs.entries.foldl (deliverOutput r.mount) (b.engine, {})
    { b with engine }.note r { gadget := id, status := .completed, inputs, outputs, propagation }

/-- Executes a gadget at once: if its inputs are enough to fire, or in any case where `force`. -/
def execute (b : Bench) (id : GadgetId) (force : Bool) : Except GadgetError (Bench × Execution) := do
  let (r, inputs) ← b.snapshot id
  return if !force && !r.gadget.activation inputs then b.skip id r inputs else b.fire id r inputs

/-! ## Rounds -/

/-- A round under way: the bench, the executions that have ended, and the gadgets that wait. -/
structure Round where
  bench : Bench
  done : Dict Execution := ∅
  waiting : List Waiting := []

def Round.finish (round : Round) (result : Bench × Execution) : Round :=
  { round with bench := result.1, done := round.done.insert result.2.gadget result.2 }

/-- A gadget's turn: it reads its inputs, and answers at once unless it takes time. One that is not in place
or whose contacts are gone has no turn. -/
def Round.turn (round : Round) (id : GadgetId) : Round :=
  let b := round.bench
  match b.snapshot id with
  | .error _ => round
  | .ok (r, inputs) =>
    if !r.gadget.activation inputs then round.finish (b.skip id r inputs)
    else if r.gadget.delay = 0 then round.finish (b.fire id r inputs)
    else { round with waiting := round.waiting ++ [⟨id, r.gadget.delay, inputs⟩] }

def Round.wake (round : Round) (w : Waiting) : Round :=
  match round.bench.executor.registration w.gadget with
  | .error _ => round
  | .ok r => round.finish (round.bench.fire w.gadget r w.inputs)

/-- The order in which waiting gadgets answer: by their delays, those of one delay in the order of their
turns. -/
def byDelay (waiting : List Waiting) : List Waiting :=
  waiting.mergeSort fun a b => a.delay ≤ b.delay

/-- Runs one round. The executions are listed in the order of the gadgets, whatever the order in which they
ended; `order` arranges the gadgets that wait. -/
def runRound (order : List Waiting → List Waiting) (b : Bench) (ids : List GadgetId) :
    Bench × List Execution :=
  let round := ids.foldl Round.turn { bench := b }
  let round := (order round.waiting).foldl Round.wake round
  (round.bench, round.done.values)

/-- The gadgets that read a contact that changed, and the bench with that news taken. -/
def triggered (b : Bench) : Bench × List GadgetId :=
  let (store, ids) := b.executor.triggered b.engine.store
  ({ b with engine := { b.engine with store } }, ids)

/-- Whether a gadget reads a contact that changed. -/
def hasPending (b : Bench) : Bool := b.executor.hasPending b.engine.store

/-- Runs rounds until no gadget is triggered, but at most so many. How waiting gadgets are arranged may differ
from round to round: `order` is told how many rounds are left. -/
def settleWith (order : Nat → List Waiting → List Waiting) : Nat → Bench → Bench × Quiescence
  | 0, b => (b, { quiescent := !b.hasPending })
  | n + 1, b =>
    let (b, ids) := b.triggered
    if ids.isEmpty then (b, { quiescent := true })
    else
      let (b, executions) := runRound (order n) b ids
      let (b, rest) := settleWith order n b
      (b, { rest with rounds := rest.rounds + 1, executions := executions ++ rest.executions })

/-- Runs rounds until no gadget is triggered, but at most so many, waiting gadgets answering by delay. -/
def settle (b : Bench) (maxRounds : Nat) : Bench × Quiescence := settleWith (fun _ => byDelay) maxRounds b

end Bench

end Patchbay
