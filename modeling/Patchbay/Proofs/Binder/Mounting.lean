import Patchbay.Proofs.Binder.Settled
import Patchbay.Proofs.Board.Mounting
import Patchbay.Proofs.Graph.Deferral

/-! New gadgets on a board that a binder keeps. A wire is checked once it is no longer deferred, so that what stands in
the way of a new gadget is a wire that was deferred until then. -/

namespace Patchbay.Binder

variable {b : Binder} {x : BoundBoard} {r : AspectRegistry} {naming : Naming} {slot : SlotName} {o : Occupant}

/-- Without a check, a plan stands or falls with what it leads to. -/
theorem told_of_candidate (b : Binder) (plan : Plan) :
    (∃ x, b.candidate plan.edit = .ok x ∧ (b.applyPlan noCheck plan).2.isOk = true) ∨
      ∃ e, b.candidate plan.edit = .error e ∧ (b.applyPlan noCheck plan).2.isOk = false ∧
        (b.applyPlan noCheck plan).2.reason = e.message := by
  unfold applyPlan propose
  cases h : b.candidate plan.edit with
  | ok x => exact .inl ⟨x, rfl, rfl⟩
  | error e => exact .inr ⟨e, rfl, rfl, rfl⟩

/-- Mounting a new gadget leads to the board with the gadget added, if that board can be realized. -/
theorem Kept.candidate_mount (h : b.Kept r naming) (hx : b.bound = some x)
    (hslot : x.board.slots.contains slot = true) (hnew : x.board.occupant? o.id = none) :
    b.candidate (.mountGadget slot o) = (((x.board.addOccupant slot o).realize r naming).map fun g =>
      (⟨x.board.addOccupant slot o, g⟩ : BoundBoard)).mapError .unrealizable := by
  have hs := h.settled x hx
  have hedit : (BoardEdit.mountGadget slot o).apply x.board = .ok (x.board.addOccupant slot o) := if_pos hslot
  have hnormal : (x.board.addOccupant slot o).normalize b.naming = x.board.addOccupant slot o := by
    rw [h.naming_eq]
    exact Board.normalize_addOccupant hs.normal
  have hvalid := Board.validate_addOccupant hs.valid hslot hnew
  rw [candidate_of_apply hx hedit, realize_of_validate (by rwa [hnormal]), hnormal, h.registry_eq, h.naming_eq]

theorem Kept.fits_of_lands (h : b.Kept r naming) (hx : b.bound = some x) {w : Wire} (hw : w ∈ x.board.wires)
    (hlands : x.board.Lands w) : w.Fits r := by
  have hs := h.settled x hx
  exact (Board.exists_realize hs.valid).1 ⟨x.graph, hs.realized⟩ w hw hlands

theorem Kept.deferred_iff (h : b.Kept r naming) (hx : b.bound = some x) {w : Wire} (hw : w ∈ x.board.wires) :
    x.graph.deferred.contains w.id = true ↔ ¬ x.board.Lands w := by
  have hs := h.settled x hx
  exact Board.deferred_iff hs.valid hs.realized hw

theorem Kept.isOk_mount (h : b.Kept r naming) (hx : b.bound = some x) (hslot : x.board.slots.contains slot = true)
    (hnew : x.board.occupant? o.id = none) {plan : Plan} (hplan : plan.edit = .mountGadget slot o) :
    (b.applyPlan noCheck plan).2.isOk = true ↔
      ∀ w ∈ x.board.wires, x.graph.deferred.contains w.id = true → (x.board.addOccupant slot o).Lands w →
        w.Fits r := by
  have hs := h.settled x hx
  have hvalid := Board.validate_addOccupant hs.valid hslot hnew
  have hrealize : (b.applyPlan noCheck plan).2.isOk = true ↔
      ∃ g, (x.board.addOccupant slot o).realize r naming = .ok g := by
    rcases b.told_of_candidate plan with ⟨y, hy, hok⟩ | ⟨e, he, hno, -⟩
    · rw [hplan, h.candidate_mount hx hslot hnew] at hy
      obtain ⟨g, hg, -⟩ := ok_of_map (ok_of_mapError hy)
      exact iff_of_true hok ⟨g, hg⟩
    · rw [hplan, h.candidate_mount hx hslot hnew] at he
      refine iff_of_false (by rw [hno]; decide) ?_
      rintro ⟨g, hg⟩
      rw [hg] at he
      cases he
  rw [hrealize, Board.exists_realize hvalid]
  -- a wire that has landed before is no matter, for it was checked then
  refine forall₂_congr fun w hw => ⟨fun hfits _ => hfits, fun hfits hlands => ?_⟩
  by_cases hold : x.board.Lands w
  · exact h.fits_of_lands hx hw hold
  · exact hfits ((h.deferred_iff hx hw).2 hold) hlands

theorem Kept.reason_of_mount (h : b.Kept r naming) (hx : b.bound = some x)
    (hslot : x.board.slots.contains slot = true) (hnew : x.board.occupant? o.id = none) {plan : Plan}
    (hplan : plan.edit = .mountGadget slot o) (hno : (b.applyPlan noCheck plan).2.isOk = false) :
    ∃ w ∈ x.board.wires, x.graph.deferred.contains w.id = true ∧ (x.board.addOccupant slot o).Lands w ∧
      ∃ fault, r.aspectsOn w = .error fault ∧
        (b.applyPlan noCheck plan).2.reason = (RealizationError.wire w.id fault).message := by
  have hs := h.settled x hx
  have hvalid := Board.validate_addOccupant hs.valid hslot hnew
  rcases b.told_of_candidate plan with ⟨y, -, hok⟩ | ⟨e, he, -, hreason⟩
  · exact absurd (hok.symm.trans hno) (by decide)
  rw [hplan, h.candidate_mount hx hslot hnew] at he
  obtain ⟨e', hrealize, rfl⟩ := error_of_mapError he
  obtain ⟨w, hw, hlands, fault, hfault, rfl⟩ := Board.fault_of_realize hvalid (error_of_map hrealize)
  refine ⟨w, hw, (h.deferred_iff hx hw).2 fun hold => ?_, hlands, fault, hfault, hreason⟩
  obtain ⟨aspects, haspects⟩ := AspectRegistry.exists_aspectsOn.2 (h.fits_of_lands hx hw hold)
  rw [haspects] at hfault
  cases hfault

/-- Whatever a binder is asked, the aspects of every wire fit that is not deferred, which is one that lands on gadgets at
both ends. A gadget that is new to the board can be mounted in any declared slot, unless it makes a deferred wire land
whose aspects do not fit, and a refusal names such a wire. -/
theorem run_mounts (r : AspectRegistry) (naming : Naming) (principal : String) (proposers : List Proposer)
    (calls : List BinderCall) :
    let b := run { registry := r, naming, principal, proposers } calls
    ∀ x, b.bound = some x →
      (∀ w ∈ x.board.wires, (x.graph.deferred.contains w.id = true ↔ ¬ x.board.Lands w) ∧
        (x.graph.deferred.contains w.id = false → w.Fits r)) ∧
      ∀ slot o, x.board.slots.contains slot = true → x.board.occupant? o.id = none →
        ∀ plan, plan.edit = .mountGadget slot o →
          ((b.applyPlan noCheck plan).2.isOk = true ↔
            ∀ w ∈ x.board.wires, x.graph.deferred.contains w.id = true → (x.board.addOccupant slot o).Lands w →
              w.Fits r) ∧
          ((b.applyPlan noCheck plan).2.isOk = false →
            ∃ w ∈ x.board.wires, x.graph.deferred.contains w.id = true ∧ (x.board.addOccupant slot o).Lands w ∧
              ∃ fault, r.aspectsOn w = .error fault ∧
                (b.applyPlan noCheck plan).2.reason = (RealizationError.wire w.id fault).message) := by
  intro b x hx
  have hb : b.Kept r naming := (kept_of_vacant r naming principal proposers).run calls
  refine ⟨fun w hw => ⟨hb.deferred_iff hx hw, fun hno => ?_⟩, fun slot o hslot hnew plan hplan => ?_⟩
  · refine hb.fits_of_lands hx hw (by_contra fun hlands => ?_)
    rw [(hb.deferred_iff hx hw).2 hlands] at hno
    cases hno
  · exact ⟨hb.isOk_mount hx hslot hnew hplan, hb.reason_of_mount hx hslot hnew hplan⟩

/-- A wire from a gadget to an empty slot, with an aspect on it. -/
def openBoard (aspect : AspectId) : Board where
  id := "b"
  slots := .ofList [("s", { requires := "P" }), ("t", { requires := "P" })]
  pinouts := .ofList [("P", { inputs := ["in"], outputs := ["out"] })]
  occupants := .ofList [("s", [{ id := "g", template := "passthrough" }])]
  wires := [{ id := "w", source := .ofGadget "g" "out", target := .ofSlot "t" "in", aspects := [{ aspect }] }]

/-- The target of a wire whose aspect is known can be mounted, and until then the wire is deferred. -/
theorem run_mounts_audit :
    let b := run { registry := .builtin, naming := .spelled } [.adopt noCheck (openBoard "audit")]
    ∃ x, b.bound = some x ∧ x.graph.deferred.contains "w" = true ∧
      (b.applyPlan noCheck { edit := .mountGadget "t" { id := "h", template := "passthrough" } }).2.isOk = true := by
  intro b
  have hboard : (b.bound.map fun x => decide (x.graph.deferred.contains "w" = true ∧
      x.board.slots.contains "t" = true ∧ (x.board.occupant? "h").isNone ∧
      ∀ w ∈ x.board.wires, w.Fits .builtin)) = some true := by decide +kernel
  obtain ⟨x, hx, hfacts⟩ := Option.map_eq_some_iff.1 hboard
  obtain ⟨hdeferred, hslot, hnew, hfits⟩ := of_decide_eq_true hfacts
  obtain ⟨-, hmounts⟩ := run_mounts .builtin .spelled "binder" [] [.adopt noCheck (openBoard "audit")] x hx
  have hmount := hmounts "t" { id := "h", template := "passthrough" } hslot (Option.isNone_iff_eq_none.1 hnew)
    { edit := .mountGadget "t" { id := "h", template := "passthrough" } } rfl
  exact ⟨x, hx, hdeferred, hmount.1.2 fun w hw _ _ => hfits w hw⟩

/-- A wire with an unknown aspect is taken while it is deferred, and stands in the way of its target from then on. -/
theorem mount_refused_for_deferred_wire :
    let b := run { registry := .builtin, naming := .spelled } [.adopt noCheck (openBoard "ghost")]
    let receipt := (b.applyPlan noCheck { edit := .mountGadget "t" { id := "h", template := "passthrough" } }).2
    ∃ x, b.bound = some x ∧ (∃ w ∈ x.board.wires, ¬ w.Fits .builtin) ∧
      x.board.slots.contains "t" = true ∧ x.board.occupant? "h" = none ∧
      receipt.isOk = false ∧ receipt.reason = "composition failed: unknown aspect ghost on wire w" := by
  intro b receipt
  have hboard : (b.bound.map fun x => decide ((∃ w ∈ x.board.wires, ¬ w.Fits .builtin) ∧
      x.board.slots.contains "t" = true ∧ (x.board.occupant? "h").isNone)) = some true := by decide +kernel
  have hreceipt : receipt.isOk = false ∧ receipt.reason = "composition failed: unknown aspect ghost on wire w" := by
    decide +kernel
  obtain ⟨x, hx, hfacts⟩ := Option.map_eq_some_iff.1 hboard
  obtain ⟨hunfit, hslot, hnew⟩ := of_decide_eq_true hfacts
  exact ⟨x, hx, hunfit, hslot, Option.isNone_iff_eq_none.1 hnew, hreceipt⟩

end Patchbay.Binder
