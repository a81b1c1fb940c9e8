import Patchbay.Proofs.Binder.Adoption
import Patchbay.Proofs.Host.Run
import Patchbay.Proofs.Host.Workshop

/-! Boards that start with proposers. Each plan that is heard is carried out or leaves a receipt with the reason, and no
plan calls for what cannot be made; but two nodes may come under one registration, and such a board does not start. -/

namespace Patchbay

namespace Binder

variable {b c : Binder}

/-- All of the graph of a binder with a board can be made. -/
structure Supplied (w : Workshop) (r : AspectRegistry) (naming : Naming) (b : Binder) : Prop where
  kept : b.Kept r naming
  bound : ∃ x, b.bound = some x
  made : w.CanMakeAll b.graph

variable {w : Workshop} {r : AspectRegistry} {naming : Naming}

theorem Supplied.answers (h : b.Supplied w r naming) (hn : naming.Faithful) {plan : Plan}
    (ha : Answers w.checkNodes plan b c) : c.Supplied w r naming := by
  cases ha with
  | @granted y receipt hp hok =>
    have hmade : w.CanMakeAll y.graph := Workshop.canMakeAll_of_propose h.kept hn h.made hp
    refine ⟨⟨h.kept.registry_eq, h.kept.naming_eq, fun y' hy => ?_⟩, ⟨y, rfl⟩, hmade⟩
    cases hy
    exact (h.kept.beside hp).1
  | refused => exact ⟨⟨h.kept.registry_eq, h.kept.naming_eq, h.kept.settled⟩, h.bound, h.made⟩

theorem Supplied.hears (h : b.Supplied w r naming) (hn : naming.Faithful)
    (hc : Relation.ReflTransGen (Hears w.checkNodes) b c) : c.Supplied w r naming := by
  induction hc with
  | refl => exact h
  | tail _ hstep ih =>
    obtain ⟨p, -, board, plans, plan, -, -, ha⟩ := hstep
    exact ih.answers hn ha

theorem Supplied.prepare_cases (h : b.Supplied w r naming) (hn : naming.Faithful) :
    (b.graph.Apart ∧ ∃ p, w.prepare b.graph (Graph.empty.diff b.graph) {} = .ok p) ∨
      ∃ gadget, b.graph.Clashes gadget ∧
        w.prepare b.graph (Graph.empty.diff b.graph) {} = .error (.gadget (.duplicate gadget)) := by
  obtain ⟨x, hx⟩ := h.bound
  have hsettled := h.kept.settled x hx
  have hgraph : b.graph = x.graph := graph_of_bound hx
  have hanchored := Board.anchored_of_realize hn hsettled.valid hsettled.realized
  rw [← hgraph] at hanchored
  exact Workshop.prepare_cases h.kept.grounded hanchored h.made

end Binder

namespace LiveBoard

variable {w : Workshop} {binder : Binder} {limits : PropagationLimits} {maxRounds : Nat} {board : Board}

theorem start_cases (w : Workshop) (binder : Binder) (hn : binder.naming.Faithful) {b₀ : LiveBoard}
    {report₀ : UpdateReport} (h : start w { binder with proposers := [] } limits maxRounds board = .ok (b₀, report₀)) :
    ∃ heard receipt, binder.adopt w.checkNodes board = .ok (heard, receipt) ∧
      Relation.ReflTransGen (Binder.Hears w.checkNodes) { b₀.binder with proposers := binder.proposers } heard ∧
      w.CanMakeAll heard.graph ∧
      ((heard.graph.Apart ∧ ∃ b report, start w binder limits maxRounds board = .ok (b, report) ∧
          b.id = board.id ∧ b.binder = heard) ∨
        ∃ gadget, heard.graph.Clashes gadget ∧
          start w binder limits maxRounds board = .error (.gadget (.duplicate gadget))) := by
  obtain ⟨c, _, p, ha, hp, he⟩ := start_eq_ok.1 h
  obtain rfl : b₀.binder = c := congrArg (·.1.binder) he
  obtain ⟨x, hb, hx, hdeclared⟩ := Binder.adopt_eq_ok ha
  rw [Binder.hearAll_of_proposers rfl] at hdeclared
  have hsame : { b₀.binder with proposers := binder.proposers } = binder.declare x := by
    rw [hdeclared]
    rfl
  have hgraph : b₀.binder.graph = (binder.declare x).graph := by
    rw [hdeclared]
    rfl
  rw [hgraph] at hp
  obtain ⟨receipt, hadopt⟩ := Binder.adopt_of_realize (b := binder) w.checkNodes hb hx
  have hhears := Binder.hears_hearAll (binder.declare x) w.checkNodes
  have hsupplied : (binder.declare x).Supplied w binder.registry binder.naming := by
    refine ⟨⟨rfl, rfl, fun y hy => ?_⟩, ⟨x, rfl⟩, Workshop.canMakeAll_of_prepare hp⟩
    cases hy
    exact Binder.settled_of_realize hx
  have hheard := hsupplied.hears hn hhears
  rw [hsame]
  refine ⟨_, receipt, hadopt, hhears, hheard.made, ?_⟩
  rcases hheard.prepare_cases hn with ⟨hapart, p, hp⟩ | ⟨gadget, hclash, herror⟩
  · have hstart : start w binder limits maxRounds board = .ok _ := start_eq_ok.2 ⟨_, receipt, p, hadopt, hp, rfl⟩
    exact .inl ⟨hapart, _, _, hstart, rfl, rfl⟩
  · refine .inr ⟨gadget, hclash, ?_⟩
    rw [start, hadopt]
    simp only [Except.mapError, bind, Except.bind, herror]

end LiveBoard

namespace Host

/-- A board that starts without proposers is adopted with them, too. Every plan of theirs is carried out, or leaves a
receipt with the reason and nothing else, and none calls for what cannot be made. With all that was carried out the
board starts, unless two of its nodes come under one registration. -/
theorem start_with_proposers (h : Host) (hn : h.naming.Faithful) {board : Board} {h₀ : Host}
    (hs : { h with proposers := [] }.start board = .ok h₀) :
    ∃ b₀ heard receipt, h₀.boards.get? board.id = some b₀ ∧
      h.newBinder.adopt h.workshop.checkNodes board = .ok (heard, receipt) ∧
      Relation.ReflTransGen (Binder.Hears h.workshop.checkNodes) { b₀.binder with proposers := h.proposers } heard ∧
      h.workshop.CanMakeAll heard.graph ∧
      ((heard.graph.Apart ∧ ∃ h' b, h.start board = .ok h' ∧ h'.boards.get? board.id = some b ∧ b.binder = heard) ∨
        ∃ gadget, heard.graph.Clashes gadget ∧ h.start board = .error (.gadget (.duplicate gadget))) := by
  obtain ⟨hnew, b₀, report₀, hb₀, rfl⟩ := start_eq_ok.1 hs
  have hid₀ : b₀.id = board.id := LiveBoard.id_of_start hb₀
  obtain ⟨heard, receipt, hadopt, hhears, hmade, hcases⟩ := LiveBoard.start_cases h.workshop h.newBinder hn hb₀
  refine ⟨b₀.takeNotes.1, heard, receipt, get?_boards_keep _ hid₀, hadopt, hhears, hmade, ?_⟩
  rcases hcases with ⟨hapart, b, report, hb, hid, hbinder⟩ | ⟨gadget, hclash, herror⟩
  · exact .inl ⟨hapart, h.keep b, b.takeNotes.1, start_eq_ok.2 ⟨hnew, b, report, hb, rfl⟩, get?_boards_keep _ hid,
      hbinder⟩
  · refine .inr ⟨gadget, hclash, ?_⟩
    rw [start, hnew, herror]
    rfl

/-- One gadget, and a tapped wire from it to itself. -/
def loopBoard : Board where
  id := "b"
  slots := .ofList [("s", { requires := "stage" })]
  occupants := .ofList [("s", [{ id := "g", template := "passthrough" }])]
  wires := [{
    id := "w"
    source := .ofSlot "s" "out"
    target := .ofSlot "s" "in"
    aspects := [{ aspect := "tap" }] }]
  pinouts := .ofList [("stage", { inputs := ["in"], outputs := ["out"] })]

/-- The shim of the tap on the loop. -/
def loopTap : NodeId := Naming.spelled.shimNode "w" "tap" .null

/-- Proposes a gadget whatever the board. -/
def mounter (gadget : GadgetId) : Proposer where
  name := "mounter"
  propose _ := .ok [{ edit := .mountGadget "s" { id := gadget, template := "passthrough" } }]

theorem start_loop : ∃ h₀, ({ naming := .spelled } : Host).start loopBoard = .ok h₀ := by
  have hok : (({ naming := .spelled } : Host).start loopBoard).toOption.isSome = true := by decide +kernel
  cases hs : ({ naming := .spelled } : Host).start loopBoard with
  | ok h₀ => exact ⟨h₀, rfl⟩
  | error e =>
    rw [hs] at hok
    cases hok

theorem start_with_proposers_loop :
    let h : Host := { naming := .spelled, proposers := [mounter "f", mounter loopTap] }
    ∃ h₀, { h with proposers := [] }.start loopBoard = .ok h₀ ∧
      ∃ b₀ heard receipt, h₀.boards.get? loopBoard.id = some b₀ ∧
        h.newBinder.adopt h.workshop.checkNodes loopBoard = .ok (heard, receipt) ∧
        Relation.ReflTransGen (Binder.Hears h.workshop.checkNodes) { b₀.binder with proposers := h.proposers } heard ∧
        h.workshop.CanMakeAll heard.graph ∧
        ((heard.graph.Apart ∧
            ∃ h' b, h.start loopBoard = .ok h' ∧ h'.boards.get? loopBoard.id = some b ∧ b.binder = heard) ∨
          ∃ gadget, heard.graph.Clashes gadget ∧ h.start loopBoard = .error (.gadget (.duplicate gadget))) := by
  intro h
  obtain ⟨h₀, hs⟩ := start_loop
  exact ⟨h₀, hs, start_with_proposers h Naming.faithful_spelled hs⟩

/-- A gadget named for a shim that is there already is mounted, for a plan is checked without regard to what the board
has; and the board, which would start alone, does not start. -/
theorem start_refused_for_plan :
    let h : Host := { naming := .spelled, proposers := [mounter loopTap] }
    (∃ h₀, { h with proposers := [] }.start loopBoard = .ok h₀) ∧
      h.start loopBoard = .error (.gadget (.duplicate loopTap)) := by
  intro h
  refine ⟨start_loop, ?_⟩
  have hfail : (h.start loopBoard).map (fun _ => ()) = .error (.gadget (.duplicate loopTap)) := by decide +kernel
  cases hs : h.start loopBoard with
  | ok h' =>
    rw [hs] at hfail
    cases hfail
  | error e =>
    rw [hs] at hfail
    exact congrArg Except.error (Except.error.inj hfail)

end Host

end Patchbay
