import Patchbay.Proofs.Binder.Mounting
import Patchbay.Proofs.Binder.Persistence
import Patchbay.Proofs.Board.Undoing

/-! Plans taken back. Once a gadget is mounted or a wire added, the plan that takes it off again leads to the board and the
graph from before, by the steps that led away from them, each turned round. -/

namespace Patchbay

namespace GraphDiff

/-- The step that takes a step back. -/
def inverse : GraphDiff → GraphDiff
  | .addNode id => .removeNode id
  | .removeNode id => .addNode id
  | .addEdge id => .removeEdge id
  | .removeEdge id => .addEdge id

end GraphDiff

/-- The way back from a graph takes the steps of the way there, turned round. -/
theorem Graph.perm_diff (g g' : Graph) : (g'.diff g).Perm ((g.diff g').map GraphDiff.inverse) := by
  have hgroups {as bs cs ds : List GraphDiff} : (as ++ bs ++ cs ++ ds).Perm (ds ++ cs ++ bs ++ as) := by
    rw [List.perm_iff_count]
    intro d
    simp only [List.count_append]
    omega
  simp only [diff, List.map_append, List.map_map]
  exact hgroups

namespace Binder

variable {b c : Binder} {r : AspectRegistry} {naming : Naming} {x y : BoundBoard} {edit : BoardEdit}

/-- A plan for the edit, which nothing but a check of what it leads to could keep from being granted, brings back the board
and the graph, and its steps are those given, turned round. -/
def Undoes (b : Binder) (edit : BoardEdit) (steps : List GraphDiff) (x : BoundBoard) : Prop :=
  ∀ check plan, plan.edit = edit → check x.graph (b.graph.diff x.graph) = .ok () →
    (b.applyPlan check plan).2.isOk = true ∧ (b.applyPlan check plan).1.bound = some x ∧
      (b.applyPlan check plan).2.diffs.Perm (steps.map GraphDiff.inverse)

/-- An edit that leads back to a settled board leads back to its graph. -/
theorem Kept.undoes (h : c.Kept r naming) (hy : c.bound = some y) (hx : x.Settled r naming) {board : Board}
    (hedit : edit.apply y.board = .ok board) (hboard : board.normalize naming = x.board) :
    c.Undoes edit (x.graph.diff y.graph) x := by
  rintro check plan rfl hcheck
  have hcandidate := h.candidate_of_realize hy hedit (hboard ▸ hx.valid) (hboard ▸ hx.realized)
  rw [hboard] at hcandidate
  obtain ⟨hok, hbound, hdiffs⟩ := applyPlan_of_propose (propose_of_candidate hcandidate hcheck)
  rw [hdiffs, graph_of_bound hy]
  exact ⟨hok, hbound, x.graph.perm_diff y.graph⟩

/-- Mounting a gadget and adding a wire, be its identity given or derived, are taken back exactly by unmounting the gadget
and removing the wire of that identity: whenever such a plan is granted, the plan that takes it back leads to the board and
the graph from before, and its steps are those of the first, turned round. -/
theorem applyPlan_undone (h : Reached r naming b) {check : GraphCheck} {plan : Plan}
    (hok : (b.applyPlan check plan).2.isOk = true) :
    ∃ x y, b.bound = some x ∧ (b.applyPlan check plan).1.bound = some y ∧
      (∀ slot o, plan.edit = .mountGadget slot o → y.board = x.board.addOccupant slot o ∧
        (b.applyPlan check plan).1.Undoes (.unmountGadget o.id) (b.applyPlan check plan).2.diffs x) ∧
      ∀ w, plan.edit = .addWire w → y.board = x.board.addWire { w with id := x.board.addedId naming w } ∧
        (b.applyPlan check plan).1.Undoes (.removeWire (x.board.addedId naming w)) (b.applyPlan check plan).2.diffs x := by
  obtain ⟨x, y, board, hx, hy, hsettled, hsettled', hedit, hboard, hdiffs⟩ := h.kept.granted hok
  have hkept : (b.applyPlan check plan).1.Kept r naming := h.kept.applyPlan check plan
  rw [hdiffs]
  refine ⟨x, y, hx, hy, fun slot o hplan => ?_, fun w hplan => ?_⟩
  · rw [hplan, BoardEdit.apply, Board.mount] at hedit
    split at hedit <;> cases hedit
    rw [Board.normalize_addOccupant hsettled.normal] at hboard
    have hplaced := Board.placed_of_validate hsettled'.valid
    rw [hboard] at hplaced
    obtain ⟨board, hunmount, hback⟩ := Board.unmount_addOccupant hsettled.normal hsettled.valid hplaced
    exact ⟨hboard, hkept.undoes hy hsettled (hboard ▸ hunmount) hback⟩
  · rw [hplan] at hedit
    cases hedit
    rw [Board.normalize_addWire hsettled.normal] at hboard
    have hremove := Board.removeWire_addWire (hboard ▸ hsettled'.valid)
    exact ⟨hboard, hkept.undoes hy hsettled (hboard ▸ hremove) hsettled.normal⟩

/-- A gadget that makes a deferred wire land comes with a shim and two edges and goes with them, and a wire without an
identity goes by the one that it was given. -/
theorem applyPlan_undone_open :
    let b := run { registry := .builtin, naming := .spelled } [.adopt noCheck (openBoard "tap")]
    let mounted := b.applyPlan noCheck { edit := .mountGadget "t" { id := "h", template := "passthrough" } }
    let unmounted := mounted.1.applyPlan noCheck { edit := .unmountGadget "h" }
    let added := b.applyPlan noCheck { edit := .addWire { source := .ofGadget "g" "out", target := .ofGadget "g" "in" } }
    (mounted.2.isOk = true ∧ mounted.2.diffs.length = 4 ∧ unmounted.2.isOk = true ∧ unmounted.1.bound = b.bound ∧
      unmounted.2.diffs.Perm (mounted.2.diffs.map GraphDiff.inverse)) ∧
    added.2.isOk = true ∧ added.2.diffs.length = 1 ∧ ∃ id,
      let removed := added.1.applyPlan noCheck { edit := .removeWire id }
      removed.2.isOk = true ∧ removed.1.bound = b.bound ∧ removed.2.diffs.Perm (added.2.diffs.map GraphDiff.inverse) := by
  intro b mounted unmounted added
  have hb : Reached .builtin .spelled b := .after "binder" [] [.adopt noCheck (openBoard "tap")]
  have hmounted : mounted.2.isOk = true ∧ mounted.2.diffs.length = 4 := by decide +kernel
  have hadded : added.2.isOk = true ∧ added.2.diffs.length = 1 := by decide +kernel
  obtain ⟨x, _, hx, -, hmount, -⟩ := applyPlan_undone hb hmounted.1
  obtain ⟨x', _, hx', -, -, hadd⟩ := applyPlan_undone hb hadded.1
  have hunmounted := (hmount "t" _ rfl).2 noCheck { edit := .unmountGadget "h" } rfl rfl
  have hremoved := (hadd _ rfl).2 noCheck { edit := .removeWire _ } rfl rfl
  exact ⟨⟨hmounted.1, hmounted.2, hunmounted.1, hunmounted.2.1.trans hx.symm, hunmounted.2.2⟩, hadded.1, hadded.2, _,
    hremoved.1, hremoved.2.1.trans hx'.symm, hremoved.2.2⟩

end Binder

end Patchbay
