import Patchbay.Host.Basic
import Patchbay.Proofs.Host.LiveBoard

/-! Runs of a host. Whatever is asked of it, in whatever order and with whatever success, each board at work has in place
exactly what the graph of its binder says, and a board that is closed leaves nothing behind. -/

namespace Patchbay

inductive HostCall where
  | start (board : Board)
  | applyPlan (id : BoardId) (plan : Plan)
  | mount (id : BoardId) (slot : SlotName) (gadget : GadgetId) (template : TemplateName)
  | unmount (id : BoardId) (gadget : GadgetId)
  | update (id : BoardId) (contact : ContactId) (value : Json)
  | execute (id : BoardId) (gadget : GadgetId)
  | close (id : BoardId)

/-! ## Turns -/

/-- What becomes of a board that something is asked of. A request that fails may leave it as it is. -/
inductive LiveBoard.Turns (w : Workshop) (b : LiveBoard) : LiveBoard → Prop
  | unchanged : Turns w b b
  | applyPlan (plan : Plan) : Turns w b (b.applyPlan w plan).1
  | update {contact value b' report} (h : b.update contact value = .ok (b', report)) : Turns w b b'
  | execute {gadget b' report} (h : b.execute gadget = .ok (b', report)) : Turns w b b'

theorem LiveBoard.Turns.id_eq {w : Workshop} {b b' : LiveBoard} (h : b.Turns w b') : b'.id = b.id := by
  cases h with
  | unchanged => rfl
  | applyPlan plan =>
    unfold LiveBoard.applyPlan
    simp only
    split <;> rfl
  | update h =>
    obtain ⟨_, _, -, -, he⟩ := update_cases h
    exact congrArg (·.1.id) he
  | execute h =>
    obtain ⟨_, _, -, -, he⟩ := execute_cases h
    exact congrArg (·.1.id) he

theorem LiveBoard.Kept.turn {r : AspectRegistry} {naming : Naming} {w : Workshop} {b b' : LiveBoard}
    (hb : b.Kept r naming) (hn : naming.Faithful) (ht : b.Turns w b') : b'.Kept r naming := by
  cases ht with
  | unchanged => exact hb
  | applyPlan plan => exact hb.applyPlan hn w plan
  | update hu => exact hb.update hu
  | execute hx => exact hb.execute hx

/-! ## Answers -/

namespace Host

def answer (h : Host) : HostCall → Host
  | .start board =>
    match h.start board with
    | .ok h => h
    | .error _ => h
  | .applyPlan id plan => (h.applyPlan id plan).1
  | .mount id slot gadget template => (h.mount id slot gadget template).1
  | .unmount id gadget => (h.unmount id gadget).1
  | .update id contact value => (h.update id contact value).1
  | .execute id gadget => (h.execute id gadget).1
  | .close id =>
    match h.close id with
    | .ok (h, _) => h
    | .error _ => h

def run (h : Host) (calls : List HostCall) : Host := calls.foldl answer h

variable {h s : Host}

/-- What becomes of a host that is called: a board is started, turns, or is closed, if anything is different at all. -/
inductive Moves (h : Host) : Host → Prop
  | unchanged : Moves h h
  | started {board b report} (hnew : h.boards.contains board.id = false)
      (hb : LiveBoard.start h.workshop h.newBinder h.config.limits h.config.maxRounds board = .ok (b, report)) :
      Moves h (h.keep b)
  | turned {id} {b b' : LiveBoard} (hb : h.boards.get? id = some b) (ht : b.Turns h.workshop b') :
      Moves h (h.keep b')
  | closed (id : BoardId) : Moves h { h with boards := h.boards.erase id }

theorem moves_onBoard {α : Type} (id : BoardId) {f : LiveBoard → LiveBoard × Except HostError α}
    (hf : ∀ b : LiveBoard, b.Turns h.workshop (f b).1) : h.Moves (h.onBoard id f).1 := by
  unfold Host.onBoard
  split
  · exact .unchanged
  · next b hb => exact .turned hb (hf b)

theorem turns_orUnchanged {α : Type} {w : Workshop} {b : LiveBoard} {x : Except HostError (LiveBoard × α)}
    (hx : ∀ b' a, x = .ok (b', a) → b.Turns w b') : b.Turns w (orUnchanged b x).1 := by
  unfold orUnchanged
  split
  · next b' a => exact hx b' a rfl
  · exact .unchanged

theorem moves_applyPlan (h : Host) (id : BoardId) (plan : Plan) : h.Moves (h.applyPlan id plan).1 :=
  moves_onBoard id fun _ => .applyPlan plan

theorem start_eq_ok {board : Board} :
    h.start board = .ok s ↔ h.boards.contains board.id = false ∧ ∃ b report,
      LiveBoard.start h.workshop h.newBinder h.config.limits h.config.maxRounds board = .ok (b, report) ∧
        s = h.keep b := by
  constructor
  · intro hs
    unfold start at hs
    split at hs
    · cases hs
    · next hnew =>
      obtain ⟨⟨b, report⟩, hb, hs⟩ := ok_of_bind hs
      cases hs
      exact ⟨Bool.eq_false_iff.2 hnew, b, report, hb, rfl⟩
  · rintro ⟨hnew, b, report, hb, rfl⟩
    rw [start, hnew, hb]
    rfl

theorem moves_answer (h : Host) (call : HostCall) : h.Moves (h.answer call) := by
  cases call with
  | start board =>
    simp only [Host.answer]
    split
    · next h' hs =>
      obtain ⟨hnew, b, report, hb, rfl⟩ := start_eq_ok.1 hs
      exact .started hnew hb
    · exact .unchanged
  | applyPlan id plan => exact h.moves_applyPlan id plan
  | mount id slot gadget template =>
    simp only [Host.answer, Host.mount]
    split
    · exact .unchanged
    · split
      · exact .unchanged
      · exact h.moves_applyPlan id _
  | unmount id gadget =>
    simp only [Host.answer, Host.unmount]
    split
    · exact .unchanged
    · split
      · exact h.moves_applyPlan id _
      · exact .unchanged
  | update id contact value => exact moves_onBoard id fun _ => turns_orUnchanged fun _ _ => .update
  | execute id gadget => exact moves_onBoard id fun _ => turns_orUnchanged fun _ _ => .execute
  | close id =>
    simp only [Host.answer, Host.close]
    split
    · next hc =>
      split at hc
      · cases hc
      · cases hc
        exact .closed id
    · exact .unchanged

/-! ## Boards in their places -/

theorem workshop_keep (h : Host) (b : LiveBoard) : (h.keep b).workshop = h.workshop := rfl

theorem get?_boards_keep (h : Host) {b : LiveBoard} {id : BoardId} (hid : b.id = id) :
    (h.keep b).boards.get? id = some b.takeNotes.1 := by
  subst hid
  exact Dict.get?_insert_self ..

theorem get?_onBoard {α : Type} {id : BoardId} {b : LiveBoard} {f : LiveBoard → LiveBoard × Except HostError α}
    (hb : h.boards.get? id = some b) (hid : (f b).1.id = id) :
    (h.onBoard id f).1.boards.get? id = some (f b).1.takeNotes.1 := by
  rw [onBoard, hb]
  exact get?_boards_keep h hid

/-! ## What a host keeps -/

/-- What a host never loses: its naming tells things apart, and its boards are kept. -/
structure Kept (h : Host) : Prop where
  faithful : h.naming.Faithful
  boards : ∀ id b, h.boards.get? id = some b → b.Kept h.aspects h.naming

theorem Kept.keep (hk : h.Kept) {b : LiveBoard} (hb : b.Kept h.aspects h.naming) : (h.keep b).Kept := by
  refine ⟨hk.faithful, fun id b' hb' => ?_⟩
  rcases Dict.get?_insert_eq_some.1 hb' with ⟨-, rfl⟩ | ⟨-, hb'⟩
  · exact hb.takeNotes
  · exact hk.boards id b' hb'

theorem Kept.close (hk : h.Kept) {id : BoardId} {h' : Host} {b : LiveBoard} (hc : h.close id = .ok (h', b)) :
    h'.Kept ∧ b.installation.Bare ∧ b.installation.skipped = [] := by
  unfold Host.close at hc
  split at hc
  · cases hc
  next b' hb' =>
  cases hc
  exact ⟨⟨hk.faithful, fun id' b hb => hk.boards id' b (Dict.get?_erase_eq_some.1 hb).2⟩,
    (hk.boards id b' hb').close⟩

theorem Kept.moves (hk : h.Kept) (hm : h.Moves s) : s.Kept := by
  cases hm with
  | unchanged => exact hk
  | started _ hb => exact hk.keep (LiveBoard.kept_of_start (Binder.kept_of_vacant ..) hb)
  | turned hb ht => exact hk.keep ((hk.boards _ _ hb).turn hk.faithful ht)
  | closed id => exact ⟨hk.faithful, fun id' b hb => hk.boards id' b (Dict.get?_erase_eq_some.1 hb).2⟩

theorem Kept.run (hk : h.Kept) (calls : List HostCall) : (h.run calls).Kept :=
  foldl_keeps (fun s call _ hk => hk.moves (s.moves_answer call)) hk

/-- After any calls, what is in place for a board at work mirrors the graph of its binder, and no step to it has ever
been left out; and nothing is in place any longer for a board that is closed. -/
theorem run_mirrors (h : Host) (hnaming : h.naming.Faithful) (hboards : h.boards = ∅) (calls : List HostCall) :
    (∀ id b, (h.run calls).boards.get? id = some b →
      b.installation.Mirrors b.binder.graph ∧ b.installation.skipped = []) ∧
    ∀ id h' b, (h.run calls).close id = .ok (h', b) →
      b.installation.Bare ∧ b.installation.skipped = [] := by
  have hk : (h.run calls).Kept := by
    refine Kept.run ⟨hnaming, fun id b hb => ?_⟩ calls
    rw [hboards] at hb
    cases hb
  constructor
  · intro id b hb
    have hkept := hk.boards id b hb
    exact ⟨hkept.mirrors, hkept.skipped_eq⟩
  · intro id h' b hc
    exact (hk.close hc).2

/-- Two stages, the first of which is occupied, and a tapped wire from the one to the other. -/
def relayBoard : Board where
  id := "b"
  slots := .ofList [("s", { requires := "stage" }), ("t", { requires := "stage" })]
  occupants := .ofList [("s", [{ id := "g", template := "passthrough" }])]
  wires := [{
    id := "w"
    source := .ofSlot "s" "out"
    target := .ofSlot "t" "in"
    aspects := [{ aspect := "tap" }] }]
  pinouts := .ofList [("stage", { inputs := ["in"], outputs := ["out"] })]

/-- A gadget is mounted into the second stage, and the wire comes to a shim and two edges. -/
theorem run_mirrors_relay :
    let h := run { naming := .spelled } [.start relayBoard, .mount "b" "t" "h" "passthrough"]
    (h.boards.get? "b").map (fun b => (b.binder.graph.nodes.size, b.binder.graph.edges.size)) = some (3, 2) ∧
    (∀ id b, h.boards.get? id = some b →
      b.installation.Mirrors b.binder.graph ∧ b.installation.skipped = []) ∧
    ∀ id h' b, h.close id = .ok (h', b) → b.installation.Bare ∧ b.installation.skipped = [] :=
  ⟨by decide +kernel, run_mirrors { naming := .spelled } Naming.faithful_spelled rfl _⟩

end Host

end Patchbay
