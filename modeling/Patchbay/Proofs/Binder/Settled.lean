import Patchbay.Binder.Basic
import Patchbay.Proofs.Board.Normal
import Patchbay.Proofs.Except

/-! Runs of a binder. Whatever is asked of it and whatever its checks object to, the board it keeps is in normal
form and valid, the graph it keeps is the one that this board comes to, and a call that is refused touches
neither. -/

namespace Patchbay

/-- The board is in normal form and valid, and comes to the graph. -/
structure BoundBoard.Settled (x : BoundBoard) (r : AspectRegistry) (naming : Naming) : Prop where
  normal : x.board.normalize naming = x.board
  valid : x.board.validate = .ok ()
  realized : x.board.realize r naming = .ok x.graph

/-- The board alone decides about the graph. -/
theorem BoundBoard.Settled.graph_eq {x y : BoundBoard} {r : AspectRegistry} {naming : Naming}
    (hx : x.Settled r naming) (hy : y.Settled r naming) (h : x.board = y.board) : x.graph = y.graph := by
  have hr := hx.realized
  rw [h, hy.realized] at hr
  exact (Except.ok.inj hr).symm

inductive BinderCall where
  | adopt (check : GraphCheck) (board : Board)
  | apply (check : GraphCheck) (plan : Plan)

namespace Binder

/-- The binder after a call, and whether the call was granted. -/
def answer (b : Binder) : BinderCall → Binder × Bool
  | .adopt check board =>
    match b.adopt check board with
    | .ok (b, _) => (b, true)
    | .error _ => (b, false)
  | .apply check plan =>
    let (b, receipt) := b.applyPlan check plan
    (b, receipt.isOk)

def run (b : Binder) (calls : List BinderCall) : Binder :=
  calls.foldl (fun b call => (b.answer call).1) b

theorem settled_of_realize {b : Binder} {board : Board} {x : BoundBoard} (h : b.realize board = .ok x) :
    x.Settled b.registry b.naming := by
  obtain ⟨_, hv, h⟩ := ok_of_bind h
  obtain ⟨g, hg, h⟩ := ok_of_bind h
  cases h
  exact ⟨board.normalize_normalize b.naming, ok_of_mapError hv, hg⟩

theorem settled_of_candidate {b : Binder} {edit : BoardEdit} {x : BoundBoard}
    (h : b.candidate edit = .ok x) : x.Settled b.registry b.naming := by
  unfold candidate at h
  split at h
  · cases h
  · obtain ⟨board, -, h⟩ := ok_of_bind h
    exact settled_of_realize (ok_of_mapError h)

theorem realize_of_validate {b : Binder} {board : Board} (hv : (board.normalize b.naming).validate = .ok ()) :
    b.realize board = ((board.normalize b.naming).realize b.registry b.naming).map fun g =>
      ⟨board.normalize b.naming, g⟩ := by
  rw [realize, hv]
  rfl

theorem candidate_of_apply {b : Binder} {x : BoundBoard} {edit : BoardEdit} {board : Board} (hx : b.bound = some x)
    (hedit : edit.apply x.board = .ok board) : b.candidate edit = (b.realize board).mapError .unrealizable := by
  rw [candidate, hx]
  dsimp only
  rw [hedit]
  rfl

/-- What an edit leads to is the normal form of the edited board. -/
theorem apply_of_candidate {b : Binder} {edit : BoardEdit} {x : BoundBoard} (h : b.candidate edit = .ok x) :
    ∃ y board, b.bound = some y ∧ edit.apply y.board = .ok board ∧ x.board = board.normalize b.naming := by
  unfold candidate at h
  split at h
  · cases h
  next y hy =>
  obtain ⟨board, hedit, h⟩ := ok_of_bind h
  obtain ⟨_, -, h⟩ := ok_of_bind (ok_of_mapError h)
  obtain ⟨g, -, h⟩ := ok_of_bind h
  cases h
  exact ⟨y, board, hy, ok_of_mapError hedit, rfl⟩

theorem candidate_of_propose {b : Binder} {check : GraphCheck} {edit : BoardEdit} {x : BoundBoard}
    {diffs : List GraphDiff} (h : b.propose check edit = .ok (x, diffs)) :
    b.candidate edit = .ok x ∧ diffs = b.graph.diff x.graph ∧ check x.graph diffs = .ok () := by
  obtain ⟨y, hy, h⟩ := ok_of_bind h
  obtain ⟨_, hc, h⟩ := ok_of_bind h
  cases h
  exact ⟨ok_of_mapError hy, rfl, hc⟩

theorem propose_of_candidate {b : Binder} {check : GraphCheck} {edit : BoardEdit} {x : BoundBoard}
    (h : b.candidate edit = .ok x) (hcheck : check x.graph (b.graph.diff x.graph) = .ok ()) :
    b.propose check edit = .ok (x, b.graph.diff x.graph) :=
  bind_eq_ok.2 ⟨x, mapError_eq_ok.2 h, bind_eq_ok.2 ⟨(), hcheck, rfl⟩⟩

theorem applyPlan_of_propose {b : Binder} {check : GraphCheck} {plan : Plan} {x : BoundBoard} {diffs : List GraphDiff}
    (h : b.propose check plan.edit = .ok (x, diffs)) : (b.applyPlan check plan).2.isOk = true ∧
      (b.applyPlan check plan).1.bound = some x ∧ (b.applyPlan check plan).2.diffs = diffs := by
  unfold applyPlan
  rw [h]
  exact ⟨rfl, rfl, rfl⟩

theorem graph_of_bound {b : Binder} {x : BoundBoard} (hx : b.bound = some x) : b.graph = x.graph := by
  rw [graph, hx, Option.map_some, Option.getD_some]

/-- A plan is granted with the diffs that lead to what was proposed, or it is refused and nothing but the
receipts differs. -/
theorem applyPlan_cases (b : Binder) (check : GraphCheck) (plan : Plan) :
    (∃ x diffs, b.propose check plan.edit = .ok (x, diffs) ∧ (b.applyPlan check plan).2.isOk = true ∧
      (b.applyPlan check plan).2.diffs = diffs ∧
      (b.applyPlan check plan).1 =
        { b with bound := some x, receipts := b.receipts ++ [(b.applyPlan check plan).2] }) ∨
    ((b.applyPlan check plan).2.isOk = false ∧ (b.applyPlan check plan).2.diffs = [] ∧
      (b.applyPlan check plan).1 = { b with receipts := b.receipts ++ [(b.applyPlan check plan).2] }) := by
  unfold applyPlan
  cases h : b.propose check plan.edit with
  | error message => exact .inr ⟨rfl, rfl, rfl⟩
  | ok p => exact .inl ⟨p.1, p.2, rfl, rfl, rfl, rfl⟩

/-- What a binder never loses: what it realizes boards with, and the fit of its board and its graph. -/
structure Kept (r : AspectRegistry) (naming : Naming) (b : Binder) : Prop where
  registry_eq : b.registry = r
  naming_eq : b.naming = naming
  settled : ∀ x, b.bound = some x → x.Settled r naming

variable {r : AspectRegistry} {naming : Naming}

/-- An edit leads to the normal form of the edited board, if that is valid and can be realized. -/
theorem Kept.candidate_of_realize {b : Binder} (h : b.Kept r naming) {x : BoundBoard} {edit : BoardEdit} {board : Board}
    {g : Graph} (hx : b.bound = some x) (hedit : edit.apply x.board = .ok board)
    (hv : (board.normalize naming).validate = .ok ()) (hg : (board.normalize naming).realize r naming = .ok g) :
    b.candidate edit = .ok ⟨board.normalize naming, g⟩ := by
  rw [candidate_of_apply hx hedit, realize_of_validate (by rwa [h.naming_eq]), h.naming_eq, h.registry_eq, hg]
  rfl

theorem Kept.applyPlan {b : Binder} (h : b.Kept r naming) (check : GraphCheck) (plan : Plan) :
    (b.applyPlan check plan).1.Kept r naming := by
  rcases b.applyPlan_cases check plan with ⟨x, diffs, hp, -, -, hb⟩ | ⟨-, -, hb⟩
  · rw [hb]
    refine ⟨h.registry_eq, h.naming_eq, fun y hy => ?_⟩
    cases hy
    have hx := settled_of_candidate (candidate_of_propose hp).1
    rwa [h.registry_eq, h.naming_eq] at hx
  · rw [hb]
    exact ⟨h.registry_eq, h.naming_eq, h.settled⟩

theorem Kept.hear {b : Binder} (h : b.Kept r naming) (check : GraphCheck) (p : Proposer) :
    (Binder.hear check b p).Kept r naming := by
  unfold Binder.hear
  split
  · exact foldl_keeps (fun c plan _ hc => hc.applyPlan check (signedBy p plan)) h
  · exact h

theorem Kept.hearAll {b : Binder} (h : b.Kept r naming) (check : GraphCheck) :
    (b.hearAll check).Kept r naming := foldl_keeps (fun _ p _ hc => hc.hear check p) h

theorem Kept.adopt {b b' : Binder} (h : b.Kept r naming) {check : GraphCheck} {board : Board}
    {receipt : Receipt} (ha : b.adopt check board = .ok (b', receipt)) : b'.Kept r naming := by
  unfold Binder.adopt at ha
  split at ha
  · cases ha
  · obtain ⟨x, hx, ha⟩ := ok_of_bind ha
    cases ha
    -- proposers are heard once the board is in place
    apply Kept.hearAll
    refine ⟨h.registry_eq, h.naming_eq, fun y hy => ?_⟩
    cases hy
    have hx := settled_of_realize (ok_of_mapError hx)
    rwa [h.registry_eq, h.naming_eq] at hx

theorem Kept.answer {b : Binder} (h : b.Kept r naming) (call : BinderCall) :
    (b.answer call).1.Kept r naming := by
  cases call with
  | adopt check board =>
    simp only [Binder.answer]
    split
    · next ha => exact h.adopt ha
    · exact h
  | apply check plan => exact h.applyPlan check plan

theorem Kept.run {b : Binder} (h : b.Kept r naming) (calls : List BinderCall) :
    (b.run calls).Kept r naming := foldl_keeps (fun _ call _ hc => hc.answer call) h

/-- A call that is refused leaves the board and the graph alone. -/
theorem bound_of_refused {b : Binder} {call : BinderCall} (h : (b.answer call).2 = false) :
    (b.answer call).1.bound = b.bound := by
  cases call with
  | adopt check board =>
    simp only [answer] at h ⊢
    cases ha : b.adopt check board with
    | ok y =>
      rw [ha] at h
      cases h
    | error e => rfl
  | apply check plan =>
    have h : (b.applyPlan check plan).2.isOk = false := h
    rcases b.applyPlan_cases check plan with ⟨x, diffs, -, hok, -⟩ | ⟨-, -, hb⟩
    · exact absurd (hok.symm.trans h) (by decide)
    · change (b.applyPlan check plan).1.bound = b.bound
      rw [hb]

theorem kept_of_vacant (r : AspectRegistry) (naming : Naming) (principal : String)
    (proposers : List Proposer) : Kept r naming { registry := r, naming, principal, proposers } :=
  ⟨rfl, rfl, nofun⟩

/-- Whatever a binder is asked, its board is in normal form and valid and its graph is the one that the board
comes to, so that two runs that end in one board end in one graph; and a call that is refused leaves both
alone. -/
theorem run_settled (r : AspectRegistry) (naming : Naming) (principal : String)
    (proposers : List Proposer) (calls : List BinderCall) :
    let b := run { registry := r, naming, principal, proposers } calls
    (∀ x, b.bound = some x → x.board.normalize naming = x.board ∧ x.board.validate = .ok () ∧
      x.board.realize r naming = .ok x.graph) ∧
    (∀ principal' proposers' calls' x y, b.bound = some x →
      (run { registry := r, naming, principal := principal', proposers := proposers' } calls').bound = some y →
      x.board = y.board → x.graph = y.graph) ∧
    ∀ call, (b.answer call).2 = false →
      (b.answer call).1.board? = b.board? ∧ (b.answer call).1.graph = b.graph := by
  have hb := (kept_of_vacant r naming principal proposers).run calls
  refine ⟨fun x hx => ?_, fun principal' proposers' calls' x y hx hy => ?_, fun call h => ?_⟩
  · have hs := hb.settled x hx
    exact ⟨hs.normal, hs.valid, hs.realized⟩
  · have hb' := (kept_of_vacant r naming principal' proposers').run calls'
    exact (hb.settled x hx).graph_eq (hb'.settled y hy)
  · have he := bound_of_refused h
    exact ⟨by rw [board?, board?, he], by rw [graph, graph, he]⟩

end Binder

end Patchbay
