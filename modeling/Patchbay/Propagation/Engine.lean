import Patchbay.Contact.Store
import Patchbay.Propagation.Stats

/-!
Propagation: a write to one contact is carried breadth-first along the active connections, each contact that
changes passing its new value on. A call always ends, whatever the topology and the lattices: every task that
changes a contact uses up one of the visits that the limits grant to it.
-/

namespace Patchbay

/-- A store, the limits of a propagation call, and the totals over all calls. -/
structure Engine where
  store : ContactStore := .empty
  limits : PropagationLimits := {}
  totals : PropagationTotals := {}

namespace Propagation

/-- A value on its way from one contact to another, `depth` connections away from where the call began. -/
structure Task where
  source : ContactId
  target : ContactId
  value : Json
  depth : Nat

/-- A propagation call under way: the tasks that wait, the visits that contacts have had, the contacts that
have had too many, and the tasks that were carried out, newest first. -/
structure Walk where
  store : ContactStore
  queue : List Task
  visits : Dict Nat := ∅
  cyclic : Names := ∅
  carriedOut : List Task := []
  stats : PropagationStats := {}

/-- The visits that the limits still grant to the contacts of a list. -/
def credit (threshold : Nat) (visits : Dict Nat) : List ContactId → Nat
  | [] => 0
  | c :: rest => (threshold - visits.getD c 0) + credit threshold visits rest

/-- The visits that the limits still grant to all contacts of the store. -/
def Walk.credit (w : Walk) (threshold : Nat) : Nat :=
  Propagation.credit threshold w.visits w.store.contacts.keys

def tasksFrom (s : ContactStore) (c : ContactId) (value : Json) (depth : Nat) : List Task :=
  (s.downstream c).map fun target => { source := c, target, value, depth }

/-- Carries a task out: joins its value into its target, which passes a new value on to its downstream,
except back to where the task came from. -/
def carryOut (w : Walk) (t : Task) : Walk :=
  let stats := { w.stats with
    tasksProcessed := w.stats.tasksProcessed + 1
    propagationDepth := max w.stats.propagationDepth t.depth }
  let w := { w with carriedOut := t :: w.carriedOut }
  match w.store.update t.target t.value with
  | .error _ => { w with stats := { stats with rejected := stats.rejected + 1 } }
  | .ok (_, false) => { w with stats }
  | .ok (store, true) =>
    let next := match store.value t.target with
      | .ok value => (tasksFrom store t.target value (t.depth + 1)).filter fun x => x.target ≠ t.source
      | .error _ => []
    { w with
      store
      queue := w.queue ++ next
      stats := { stats with valuesChanged := stats.valuesChanged + 1 } }

/-- Takes up a task: a visit too many marks its target as cyclic, and tasks to such a target are dropped. -/
def takeUp (threshold : Nat) (w : Walk) (t : Task) : Walk :=
  if w.cyclic.contains t.target then w
  else
    let seen := w.visits.getD t.target 0 + 1
    let w := { w with visits := w.visits.insert t.target seen }
    if threshold < seen then
      { w with
        cyclic := w.cyclic.add t.target
        stats := { w.stats with cyclesDetected := w.stats.cyclesDetected + 1 } }
    else carryOut w t

theorem credit_insert_le (threshold : Nat) (visits : Dict Nat) (c : ContactId)
    (ids : List ContactId) :
    credit threshold (visits.insert c (visits.getD c 0 + 1)) ids ≤ credit threshold visits ids := by
  induction ids with
  | nil => exact Nat.le_refl _
  | cons x rest ih =>
    have hx : threshold - (visits.insert c (visits.getD c 0 + 1)).getD x 0 ≤
        threshold - visits.getD x 0 := by
      by_cases h : x = c
      · subst h
        simp only [Dict.getD, Dict.get?_insert_self, Option.getD_some]
        omega
      · simp [Dict.getD, Dict.get?_insert_of_ne _ h]
    simp only [credit]
    omega

theorem credit_insert_lt {threshold : Nat} {visits : Dict Nat} {c : ContactId}
    {ids : List ContactId} (hc : c ∈ ids) (h : visits.getD c 0 + 1 ≤ threshold) :
    credit threshold (visits.insert c (visits.getD c 0 + 1)) ids < credit threshold visits ids := by
  induction ids with
  | nil => cases hc
  | cons x rest ih =>
    have hle := credit_insert_le threshold visits c rest
    simp only [credit]
    by_cases hx : x = c
    · subst hx
      simp only [Dict.getD, Dict.get?_insert_self, Option.getD_some] at h ⊢
      simp only [Dict.getD] at hle
      omega
    · have := ih ((List.mem_cons.1 hc).resolve_left fun h => hx h.symm)
      simp only [Dict.getD, Dict.get?_insert_of_ne _ hx] at this ⊢
      omega

/-- Taking up a task uses up a visit, or leaves the queue as it is. -/
theorem takeUp_decreases (threshold : Nat) (w : Walk) (t : Task) :
    (takeUp threshold w t).credit threshold < w.credit threshold ∨
      (takeUp threshold w t).credit threshold ≤ w.credit threshold ∧
        (takeUp threshold w t).queue = w.queue := by
  have hle := credit_insert_le threshold w.visits t.target w.store.contacts.keys
  unfold takeUp
  split
  · exact .inr ⟨Nat.le_refl _, rfl⟩
  · simp only
    split
    · exact .inr ⟨hle, rfl⟩
    · rename_i hseen
      simp only [carryOut]
      split
      · exact .inr ⟨hle, rfl⟩
      · exact .inr ⟨hle, rfl⟩
      · rename_i store hu
        obtain ⟨hmem, hkeys⟩ := ContactStore.keys_of_update hu
        left
        simp only [Walk.credit, hkeys]
        exact credit_insert_lt hmem (by omega)

/-- Takes up tasks until none is left. A task that is too deep ends the call, and the tasks behind it are
given up. -/
def walk (limits : PropagationLimits) (w : Walk) : Walk :=
  match _h : w.queue with
  | [] => w
  | t :: rest =>
    if limits.maxDepth < t.depth then
      { w with queue := [], stats := { w.stats with truncated := true } }
    else walk limits (takeUp limits.cycleThreshold { w with queue := rest } t)
termination_by (w.credit limits.cycleThreshold, w.queue.length)
decreasing_by
  rcases takeUp_decreases limits.cycleThreshold { w with queue := rest } t with hlt | ⟨hle, hq⟩
  · exact Prod.Lex.left _ _ hlt
  · rcases Nat.lt_or_eq_of_le hle with hlt | heq
    · exact Prod.Lex.left _ _ hlt
    · rw [heq, hq]
      refine Prod.Lex.right _ ?_
      simp [_h]

/-- The call as it begins: the source has been written, and its downstream is given its current value,
changed or not, unless that is null. -/
def start (s : ContactStore) (source : ContactId) (current : Json) (changed : Bool) : Walk where
  store := s
  queue := if current.isNull then [] else tasksFrom s source current 1
  stats := { valuesChanged := if changed then 1 else 0 }

end Propagation

namespace Engine

/-- Joins a value into a contact and carries the result downstream. Only a failure at the contact itself is
an error; a join that fails further on is counted. -/
def propagate (e : Engine) (source : ContactId) (value : Json) :
    Except ContactError (Engine × PropagationStats) := do
  let (store, changed) ← e.store.update source value
  let current ← store.value source
  let w := Propagation.walk e.limits (Propagation.start store source current changed)
  return ({ e with store := w.store, totals := e.totals.record w.stats }, w.stats)

/-- Propagates one update after the other, up to the first that fails. Those before it stay. -/
def propagateAll (e : Engine) : List (ContactId × Json) → Engine × Except ContactError PropagationStats
  | [] => (e, .ok {})
  | (source, value) :: rest =>
    match e.propagate source value with
    | .error cause => (e, .error cause)
    | .ok (e, stats) =>
      let (e, total) := propagateAll e rest
      (e, total.map stats.absorb)

end Engine

end Patchbay
