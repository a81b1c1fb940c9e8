import Patchbay.Proofs.Binder.Settled
import Mathlib.Logic.Relation

/-! A new board and the plans that are heard about it, one after the other: each is carried out, or leaves a receipt with
the reason. -/

namespace Patchbay.Binder

/-- What a plan comes to: the binder moves on to what was proposed, or a receipt with the reason is all that is left of
the plan. -/
inductive Answers (check : GraphCheck) (plan : Plan) (b : Binder) : Binder → Prop
  | granted {x : BoundBoard} {receipt : Receipt} (hp : b.propose check plan.edit = .ok (x, receipt.diffs))
      (hok : receipt.isOk = true) :
      Answers check plan b { b with bound := some x, receipts := b.receipts ++ [receipt] }
  | refused {receipt : Receipt} (hp : b.propose check plan.edit = .error receipt.reason)
      (hok : receipt.isOk = false) (hdiffs : receipt.diffs = []) :
      Answers check plan b { b with receipts := b.receipts ++ [receipt] }

/-- One more plan of a proposer is heard. -/
def Hears (check : GraphCheck) (b c : Binder) : Prop :=
  ∃ p ∈ b.proposers, ∃ board plans plan, p.propose board = .ok plans ∧ plan ∈ plans ∧
    Answers check (signedBy p plan) b c

variable {b c : Binder} {check : GraphCheck}

theorem answers_applyPlan (b : Binder) (check : GraphCheck) (plan : Plan) :
    Answers check plan b (b.applyPlan check plan).1 := by
  unfold applyPlan
  cases hp : b.propose check plan.edit with
  | ok proposal => exact .granted hp rfl
  | error reason => exact .refused hp rfl rfl

theorem proposers_of_hears (h : Relation.ReflTransGen (Hears check) b c) : c.proposers = b.proposers := by
  induction h with
  | refl => rfl
  | tail _ hstep ih =>
    obtain ⟨p, -, board, plans, plan, -, -, ha⟩ := hstep
    cases ha with
    | granted => exact ih
    | refused => exact ih

theorem hears_hear (h : Relation.ReflTransGen (Hears check) b c) {p : Proposer} (hp : p ∈ b.proposers) :
    Relation.ReflTransGen (Hears check) b (hear check c p) := by
  unfold hear
  split
  · next plans hplans =>
    obtain ⟨board, -, hpropose⟩ := Option.map_eq_some_iff.1 hplans
    refine foldl_keeps (fun d plan hplan hd => hd.tail ?_) h
    exact ⟨p, proposers_of_hears hd ▸ hp, board, plans, plan, hpropose, hplan, answers_applyPlan ..⟩
  · exact h

theorem hears_hearAll (b : Binder) (check : GraphCheck) :
    Relation.ReflTransGen (Hears check) b (b.hearAll check) :=
  foldl_keeps (P := fun c => Relation.ReflTransGen (Hears check) b c)
    (fun _ _ hp hc => hears_hear hc (List.mem_mergeSort.1 hp)) .refl

theorem hearAll_of_proposers (h : b.proposers = []) : b.hearAll check = b := by
  rw [hearAll, Proposer.sorted, h, List.mergeSort_nil, List.foldl_nil]

/-! ## A board as declared -/

/-- A binder with a new board, before any proposer is heard. -/
def declare (b : Binder) (x : BoundBoard) : Binder :=
  ({ b with bound := some x }.issue fun id =>
    .granted id b.principal "initialize" (Graph.empty.diff x.graph)).1

theorem adopt_eq_ok {board : Board} {receipt : Receipt} (h : b.adopt check board = .ok (c, receipt)) :
    ∃ x, b.bound = none ∧ b.realize board = .ok x ∧ c = (b.declare x).hearAll check := by
  unfold adopt at h
  split at h
  · cases h
  next hb =>
  obtain ⟨x, hx, h⟩ := ok_of_bind h
  cases h
  exact ⟨x, hb, ok_of_mapError hx, rfl⟩

theorem adopt_of_realize (check : GraphCheck) {board : Board} {x : BoundBoard} (hb : b.bound = none)
    (hx : b.realize board = .ok x) : ∃ receipt, b.adopt check board = .ok ((b.declare x).hearAll check, receipt) := by
  unfold adopt
  rw [hb, hx]
  exact ⟨_, rfl⟩

end Patchbay.Binder
