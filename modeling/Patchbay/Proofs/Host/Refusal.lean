import Patchbay.Proofs.Host.Run

/-! Requests that are refused. Whatever a change of a board is refused for, the host is as it was before, except that
the board has one more receipt, which says so. -/

namespace Patchbay

/-! ## Receipts of refusal -/

namespace Binder

/-- The receipt for a plan that is refused. -/
def refusal (b : Binder) (plan : Plan) (message : String) : Receipt :=
  .refused b.nextReceiptId (if plan.principal = "" then b.principal else plan.principal) message

def withReceipt (b : Binder) (receipt : Receipt) : Binder := { b with receipts := b.receipts ++ [receipt] }

/-- A plan is refused exactly where what it proposes cannot be, or the check objects to it. -/
theorem applyPlan_refused {b : Binder} {check : GraphCheck} {plan : Plan}
    (h : (b.applyPlan check plan).2.isOk = false) :
    ∃ message, b.propose check plan.edit = .error message ∧
      b.applyPlan check plan = (b.withReceipt (b.refusal plan message), b.refusal plan message) := by
  unfold applyPlan at h ⊢
  cases hp : b.propose check plan.edit with
  | ok p =>
    rw [hp] at h
    cases h
  | error message => exact ⟨message, rfl, rfl⟩

/-- What a refusal is for: the edit or the board that it leads to, or what cannot be made or installed of its graph. -/
theorem cause_of_refusal {b : Binder} {w : Workshop} {i : Installation} {edit : BoardEdit} {message : String}
    (h : b.propose (w.checkInstallation i) edit = .error message) :
    (∃ cause, b.candidate edit = .error cause ∧ message = cause.message) ∨
      ∃ x cause, b.candidate edit = .ok x ∧ w.prepare x.graph (b.graph.diff x.graph) i = .error cause ∧
        message = cause.message := by
  cases hc : b.candidate edit with
  | error cause =>
    simp only [propose, hc, Except.mapError, bind, Except.bind] at h
    cases h
    exact .inl ⟨cause, rfl, rfl⟩
  | ok x =>
    cases hp : w.prepare x.graph (b.graph.diff x.graph) i with
    | error cause =>
      simp only [propose, hc, Workshop.checkInstallation, hp, Except.mapError, bind, Except.bind] at h
      cases h
      exact .inr ⟨x, cause, rfl, hp, rfl⟩
    | ok p =>
      simp only [propose, hc, Workshop.checkInstallation, hp, Except.mapError, bind, Except.bind, pure,
        Except.pure] at h
      cases h

end Binder

/-! ## Boards in their places -/

inductive HostEvent where
  | call (call : HostCall)
  | listen (id : BoardId) (l : Listener)

namespace Host

/-- Every board is in its own place, and its notes are in the journal of the host. -/
def Tidy (h : Host) : Prop :=
  ∀ id b, h.boards.get? id = some b → b.id = id ∧ b.installation.bench.journal = []

variable {h s : Host}

theorem Tidy.keep (ht : h.Tidy) (b : LiveBoard) : (h.keep b).Tidy := by
  intro id b' hb'
  rcases Dict.get?_insert_eq_some.1 hb' with ⟨rfl, rfl⟩ | ⟨-, hb'⟩
  · exact ⟨rfl, rfl⟩
  · exact ht id b' hb'

theorem Tidy.onBoard {α : Type} (ht : h.Tidy) (id : BoardId) (f : LiveBoard → LiveBoard × Except HostError α) :
    (h.onBoard id f).1.Tidy := by
  unfold Host.onBoard
  split
  · exact ht
  · exact ht.keep _

theorem Tidy.moves (ht : h.Tidy) (hm : h.Moves s) : s.Tidy := by
  cases hm with
  | unchanged => exact ht
  | started | turned => exact ht.keep _
  | closed id => exact fun id' b hb => ht id' b (Dict.get?_erase_eq_some.1 hb).2

/-- A call is answered, or someone begins to listen to a board. -/
def occur (h : Host) : HostEvent → Host
  | .call call => h.answer call
  | .listen id l => { h with boards := h.boards.modify id fun b => b.listen l }

def after (h : Host) (events : List HostEvent) : Host := events.foldl occur h

theorem after_start {h' : Host} {board : Board} (hs : h.start board = .ok h') (events : List HostEvent) :
    h.after (.call (.start board) :: events) = h'.after events := by
  simp only [after, List.foldl_cons, occur, answer, hs]

theorem Tidy.occur (ht : h.Tidy) (event : HostEvent) : (h.occur event).Tidy := by
  cases event with
  | call call => exact ht.moves (h.moves_answer call)
  | listen id l =>
    intro id' b hb
    rw [Host.occur, Dict.get?_modify] at hb
    split at hb
    · obtain ⟨b', hb', rfl⟩ := Option.map_eq_some_iff.1 hb
      exact ht id' b' hb'
    · exact ht id' b hb

theorem Tidy.after (ht : h.Tidy) (events : List HostEvent) : (h.after events).Tidy :=
  foldl_keeps (fun _ event _ ht => ht.occur event) ht

/-- A board that comes back without notes changes nothing but its own place. -/
theorem keep_of_tidy (h : Host) {b : LiveBoard} (hb : b.installation.bench.journal = []) :
    h.keep b = { h with boards := h.boards.insert b.id b } := by
  have hnotes : b.takeNotes = (b, []) := by
    rw [LiveBoard.takeNotes, LiveBoard.withBench, hb, ← hb]
  simp only [keep, hnotes, List.append_nil]

end Host

/-! ## Requests -/

/-- A request to change a board. -/
inductive PlanRequest where
  | apply (plan : Plan)
  | mount (slot : SlotName) (gadget : GadgetId) (template : TemplateName)
  | unmount (gadget : GadgetId)

/-- The plan that a request puts to the binder. -/
def PlanRequest.plan : PlanRequest → Plan
  | apply plan => plan
  | mount slot gadget template => { edit := .mountGadget slot { id := gadget, template } }
  | unmount gadget => { edit := .unmountGadget gadget }

/-- What is asked of a request before its plan is put to the binder. -/
def PlanRequest.fits (h : Host) (b : LiveBoard) : PlanRequest → Bool
  | apply _ => true
  | mount _ _ template => h.library.contains template
  | unmount gadget => b.hasGadget gadget

/-- An answer is an error, or it comes with an error receipt. -/
def Refused (answer : Except HostError PlanOutcome) : Prop :=
  ∀ outcome, answer = .ok outcome → outcome.receipt.isOk = false

/-- The board with a receipt for a plan that was refused. -/
def LiveBoard.withRefusal (b : LiveBoard) (plan : Plan) (message : String) : LiveBoard :=
  { b with binder := b.binder.withReceipt (b.binder.refusal plan message) }

theorem LiveBoard.applyPlan_refused {b : LiveBoard} {w : Workshop} {plan : Plan}
    (h : (b.applyPlan w plan).2.receipt.isOk = false) :
    ∃ message, b.binder.propose (w.checkInstallation b.installation) plan.edit = .error message ∧
      (b.applyPlan w plan).1 = b.withRefusal plan message := by
  cases hok : (b.binder.applyPlan (w.checkInstallation b.installation) plan).2.isOk with
  | true =>
    simp only [LiveBoard.applyPlan, hok, if_true] at h
    cases h
  | false =>
    obtain ⟨message, hp, ha⟩ := Binder.applyPlan_refused hok
    refine ⟨message, hp, ?_⟩
    simp only [LiveBoard.applyPlan, hok, Bool.false_eq_true, if_false]
    rw [ha]
    rfl

namespace Host

variable {h : Host}

def request (h : Host) (id : BoardId) : PlanRequest → Host × Except HostError PlanOutcome
  | .apply plan => h.applyPlan id plan
  | .mount slot gadget template => h.mount id slot gadget template
  | .unmount gadget => h.unmount id gadget

theorem applyPlan_refused (ht : h.Tidy) {id : BoardId} {b : LiveBoard} (hb : h.boards.get? id = some b)
    {plan : Plan} (hr : Refused (h.applyPlan id plan).2) :
    ∃ message, b.binder.propose (h.workshop.checkInstallation b.installation) plan.edit = .error message ∧
      (h.applyPlan id plan).1 = { h with boards := h.boards.insert id (b.withRefusal plan message) } := by
  obtain ⟨hid, hjournal⟩ := ht id b hb
  have happly : h.applyPlan id plan =
      (h.keep (b.applyPlan h.workshop plan).1, .ok (b.applyPlan h.workshop plan).2) := by
    simp only [applyPlan, onBoard, hb]
  rw [happly] at hr ⊢
  obtain ⟨message, hp, he⟩ := LiveBoard.applyPlan_refused (hr _ rfl)
  have hkeep := keep_of_tidy h (show (b.withRefusal plan message).installation.bench.journal = [] from hjournal)
  rw [show (b.withRefusal plan message).id = id from hid] at hkeep
  refine ⟨message, hp, ?_⟩
  simp only [he, hkeep]

theorem refused_of_insistOn {id : BoardId} {plan : Plan} (hr : Refused (h.insistOn id plan).2) :
    Refused (h.applyPlan id plan).2 := by
  intro outcome ho
  by_contra hok
  rw [Bool.not_eq_false] at hok
  have hanswer : (h.insistOn id plan).2 = .ok outcome := by
    simp only [insistOn, ho, Except.bind, granted, hok, if_true]
  rw [hr outcome hanswer] at hok
  cases hok

theorem request_of_absent {id : BoardId} (hb : h.boards.get? id = none) (request : PlanRequest) :
    (h.request id request).1 = h := by
  cases request with
  | apply plan => simp only [Host.request, applyPlan, onBoard, hb]
  | mount slot gadget template => simp [Host.request, mount, Dict.contains, hb]
  | unmount gadget => simp only [Host.request, unmount, hb]

theorem request_of_unfit {id : BoardId} {b : LiveBoard} (hb : h.boards.get? id = some b) {request : PlanRequest}
    (hf : request.fits h b = false) : (h.request id request).1 = h := by
  cases request with
  | apply plan => cases hf
  | mount slot gadget template =>
    have hunknown : h.library.contains template = false := hf
    simp [Host.request, mount, Dict.contains, hb, hunknown]
  | unmount gadget =>
    have hmissing : b.hasGadget gadget = false := hf
    simp [Host.request, unmount, hb, hmissing]

theorem request_of_fits {id : BoardId} {b : LiveBoard} (hb : h.boards.get? id = some b) {request : PlanRequest}
    (hf : request.fits h b = true) (hr : Refused (h.request id request).2) :
    (h.request id request).1 = (h.applyPlan id request.plan).1 ∧ Refused (h.applyPlan id request.plan).2 := by
  cases request with
  | apply plan => exact ⟨rfl, hr⟩
  | mount slot gadget template =>
    have hknown : h.library.contains template = true := hf
    have he : h.request id (.mount slot gadget template) =
        h.insistOn id (PlanRequest.mount slot gadget template).plan := by
      simp [Host.request, mount, Dict.contains, hb, hknown, PlanRequest.plan]
    rw [he] at hr ⊢
    exact ⟨rfl, refused_of_insistOn hr⟩
  | unmount gadget =>
    have hthere : b.hasGadget gadget = true := hf
    have he : h.request id (.unmount gadget) = h.insistOn id (PlanRequest.unmount gadget).plan := by
      simp [Host.request, unmount, hb, hthere, PlanRequest.plan]
    rw [he] at hr ⊢
    exact ⟨rfl, refused_of_insistOn hr⟩

/-- After any events, a request to change a board that is refused leaves the host as it is. Where its plan was put to the
binder, and failed there or at what would have to be installed, the board has one more receipt, with the reason and
without steps; its declaration, its graph and all that is in place for it are the same, and so is every other board. -/
theorem request_refused (h : Host) (hboards : h.boards = ∅) (events : List HostEvent) (id : BoardId)
    (request : PlanRequest) (hr : Refused ((h.after events).request id request).2) :
    let s := h.after events
    ((s.request id request).1 = s ∧ ∀ b, s.boards.get? id = some b → request.fits s b = false) ∨
    ∃ b message, s.boards.get? id = some b ∧ request.fits s b = true ∧
      ((∃ cause, b.binder.candidate request.plan.edit = .error cause ∧ message = cause.message) ∨
        ∃ x cause, b.binder.candidate request.plan.edit = .ok x ∧
          s.workshop.prepare x.graph (b.graph.diff x.graph) b.installation = .error cause ∧
          message = cause.message) ∧
      (s.request id request).1 = { s with boards := s.boards.insert id (b.withRefusal request.plan message) } := by
  have ht : (h.after events).Tidy := by
    refine Tidy.after (fun id b hb => ?_) events
    rw [hboards] at hb
    cases hb
  generalize h.after events = s at ht hr
  cases hb : s.boards.get? id with
  | none =>
    refine .inl ⟨request_of_absent hb request, fun b hb' => ?_⟩
    rw [hb] at hb'
    cases hb'
  | some b =>
    cases hf : request.fits s b with
    | false =>
      refine .inl ⟨request_of_unfit hb hf, fun b' hb' => ?_⟩
      rw [hb] at hb'
      cases hb'
      exact hf
    | true =>
      obtain ⟨hsame, hrefused⟩ := request_of_fits hb hf hr
      obtain ⟨message, hp, hs⟩ := applyPlan_refused ht hb hrefused
      exact .inr ⟨b, message, hb, hf, Binder.cause_of_refusal hp, hsame.trans hs⟩

/-- A template that nobody knows is found out when its node is to be made, on a board at work that is listened to. -/
theorem request_refused_relay :
    let s := after { naming := .spelled } [.call (.start relayBoard), .listen "b" (.observer 0)]
    let request : PlanRequest := .apply { edit := .mountGadget "t" { id := "h", template := "mystery" } }
    ∃ b message, s.boards.get? "b" = some b ∧
      (s.request "b" request).1 = { s with boards := s.boards.insert "b" (b.withRefusal request.plan message) } := by
  intro s request
  have hanswer : (match (s.request "b" request).2 with
      | .ok outcome => outcome.receipt.isOk
      | .error _ => true) = false := by decide +kernel
  have hr : Refused (s.request "b" request).2 := by
    intro outcome ho
    rw [ho] at hanswer
    exact hanswer
  rcases request_refused { naming := .spelled } rfl [.call (.start relayBoard), .listen "b" (.observer 0)] "b" request
    hr with ⟨-, hfits⟩ | ⟨b, message, hb, -, -, hs⟩
  · have hthere : s.boards.contains "b" = true := by decide +kernel
    obtain ⟨b, hb⟩ := Dict.contains_iff.1 hthere
    cases hfits b hb
  · exact ⟨b, message, hb, hs⟩

end Host

end Patchbay
