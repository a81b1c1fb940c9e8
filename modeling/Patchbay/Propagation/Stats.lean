import Patchbay.Json.Form

/-!
The bounds of a propagation call, what one call did, and the totals over many calls.
-/

namespace Patchbay

/-- The bounds of one propagation call: tasks deeper than `maxDepth` end it, and a contact that is visited
more than `cycleThreshold` times counts as cyclic. -/
structure PropagationLimits where
  maxDepth : Nat := 100
  cycleThreshold : Nat := 10
  deriving DecidableEq

structure PropagationStats where
  tasksProcessed : Nat := 0
  valuesChanged : Nat := 0
  cyclesDetected : Nat := 0
  propagationDepth : Nat := 0
  rejected : Nat := 0
  truncated : Bool := false
  deriving DecidableEq

structure PropagationTotals where
  calls : Nat := 0
  tasksProcessed : Nat := 0
  valuesChanged : Nat := 0
  cyclesDetected : Nat := 0
  rejected : Nat := 0
  truncations : Nat := 0
  maxDepthSeen : Nat := 0
  deriving DecidableEq

namespace PropagationStats

def absorb (a b : PropagationStats) : PropagationStats where
  tasksProcessed := a.tasksProcessed + b.tasksProcessed
  valuesChanged := a.valuesChanged + b.valuesChanged
  cyclesDetected := a.cyclesDetected + b.cyclesDetected
  propagationDepth := max a.propagationDepth b.propagationDepth
  rejected := a.rejected + b.rejected
  truncated := a.truncated || b.truncated

end PropagationStats

namespace PropagationTotals

def record (t : PropagationTotals) (s : PropagationStats) : PropagationTotals where
  calls := t.calls + 1
  tasksProcessed := t.tasksProcessed + s.tasksProcessed
  valuesChanged := t.valuesChanged + s.valuesChanged
  cyclesDetected := t.cyclesDetected + s.cyclesDetected
  rejected := t.rejected + s.rejected
  truncations := t.truncations + if s.truncated then 1 else 0
  maxDepthSeen := max t.maxDepthSeen s.propagationDepth

end PropagationTotals

open Json JsonForm

instance : JsonForm PropagationLimits where
  encode l := mkObj <| member "max_depth" l.maxDepth ++ member "cycle_threshold" l.cycleThreshold
  decode? j := do
    let f ← fields? ["max_depth", "cycle_threshold"] j
    return {
      maxDepth := ← optional? f "max_depth" 100
      cycleThreshold := ← optional? f "cycle_threshold" 10 }

end Patchbay
