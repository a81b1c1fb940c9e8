import Patchbay.Proofs.Binder.Adoption
import Patchbay.Proofs.Graph.Replay
import Patchbay.Proofs.Json.Numeral

/-! The receipts of a binder as the history of its board. Each plan leaves one receipt, receipts are numbered in the order
of the plans, and the steps that were granted, replayed from nothing, come to the graph. -/

namespace Patchbay.Binder

/-! ## One receipt more -/

/-- The identity of the receipt with a number. Receipts from before there was a board are not named for one. -/
def Numbered (n : Nat) (receipt : Receipt) : Prop := ∃ board, receipt.id = board ++ "#" ++ Nat.repr n

/-- The digits after the last `#` are the number. -/
theorem Numbered.inj {m n : Nat} {receipt receipt' : Receipt} (h : Numbered m receipt) (h' : Numbered n receipt')
    (hid : receipt.id = receipt'.id) : m = n := by
  obtain ⟨board, hm⟩ := h
  obtain ⟨board', hn⟩ := h'
  have hchars := congrArg (fun s : String => s.toList.reverse) (hm.symm.trans (hid.trans hn))
  simp only [String.toList_append, Nat.toList_repr, List.reverse_append, List.append_assoc] at hchars
  have hdigits (k : Nat) : '#' ∉ (Nat.toDigits 10 k).reverse := by
    intro hk
    exact absurd (Json.isDigit_toDigits '#' (List.mem_reverse.1 hk)) (by decide)
  have hsame := List.reverse_injective (append_cons_inj (hdigits m) (hdigits n) hchars).1
  rw [← Json.Token.digitsValue_toDigits m, hsame, Json.Token.digitsValue_toDigits]

/-- One binder is another with one receipt more. The receipt is numbered, and it has the steps to the graph that there is
now, or says that the graph is as it was. -/
structure Records (b c : Binder) (receipt : Receipt) : Prop where
  receipts_eq : c.receipts = b.receipts ++ [receipt]
  numbered : Numbered (b.receipts.length + 1) receipt
  told : (receipt.isOk = true ∧ receipt.diffs = b.graph.diff c.graph) ∨
    (receipt.isOk = false ∧ receipt.diffs = [] ∧ c.graph = b.graph)

variable {b c : Binder} {check : GraphCheck}

theorem records_applyPlan (b : Binder) (check : GraphCheck) (plan : Plan) :
    Records b (b.applyPlan check plan).1 (b.applyPlan check plan).2 := by
  unfold applyPlan
  cases hp : b.propose check plan.edit with
  | ok proposal =>
    have hdiffs := (candidate_of_propose hp).2.1
    exact ⟨rfl, ⟨_, rfl⟩, .inl ⟨rfl, hdiffs⟩⟩
  | error message => exact ⟨rfl, ⟨_, rfl⟩, .inr ⟨rfl, rfl, rfl⟩⟩

theorem records_adopt {board : Board} {receipt : Receipt} (h : b.adopt check board = .ok (c, receipt)) :
    ∃ x, b.realize board = .ok x ∧ Records b (b.declare x) receipt ∧ c = (b.declare x).hearAll check := by
  unfold adopt at h
  split at h
  · cases h
  next hb =>
  obtain ⟨x, hx, h⟩ := ok_of_bind h
  cases h
  have hempty : b.graph = .empty := by rw [graph, hb, Option.map_none, Option.getD_none]
  refine ⟨x, ok_of_mapError hx, ⟨rfl, ⟨_, rfl⟩, .inl ⟨rfl, ?_⟩⟩, rfl⟩
  rw [hempty]
  rfl

/-! ## Plans that are heard -/

/-- What a proposer has to say about the board as it stands. -/
def plansOf (b : Binder) (p : Proposer) : List Plan :=
  match b.board?.map p.propose with
  | some (.ok plans) => plans.map (signedBy p)
  | _ => []

/-- The plans that are heard of proposers in turn. What one has to say may depend on what came of the plans of those
before it. -/
def plansHeard (check : GraphCheck) : Binder → List Proposer → List Plan
  | _, [] => []
  | b, p :: rest => b.plansOf p ++ plansHeard check (hear check b p) rest

def carryOut (b : Binder) (check : GraphCheck) (plans : List Plan) : Binder :=
  plans.foldl (fun b plan => (b.applyPlan check plan).1) b

/-- The receipts for plans that are carried out one after the other. -/
def receiptsFor (check : GraphCheck) : Binder → List Plan → List Receipt
  | _, [] => []
  | b, plan :: rest => (b.applyPlan check plan).2 :: receiptsFor check (b.applyPlan check plan).1 rest

theorem hear_eq (b : Binder) (check : GraphCheck) (p : Proposer) :
    hear check b p = b.carryOut check (b.plansOf p) := by
  unfold hear plansOf
  rcases b.board?.map p.propose with _ | _ | plans
  · rfl
  · rfl
  · change _ = (plans.map (signedBy p)).foldl (fun b plan => (b.applyPlan check plan).1) b
    rw [List.foldl_map]

theorem foldl_hear (b : Binder) (check : GraphCheck) (ps : List Proposer) :
    ps.foldl (hear check) b = b.carryOut check (plansHeard check b ps) := by
  induction ps generalizing b with
  | nil => rfl
  | cons p rest ih =>
    rw [List.foldl_cons, ih, plansHeard, carryOut, carryOut, List.foldl_append]
    exact congrArg (List.foldl _ · _) (hear_eq b check p)

theorem receipts_carryOut (b : Binder) (check : GraphCheck) (plans : List Plan) :
    (b.carryOut check plans).receipts = b.receipts ++ receiptsFor check b plans := by
  induction plans generalizing b with
  | nil => exact (List.append_nil _).symm
  | cons plan rest ih =>
    change ((b.applyPlan check plan).1.carryOut check rest).receipts = _
    rw [ih, (records_applyPlan b check plan).receipts_eq, List.append_assoc]
    rfl

theorem length_receiptsFor (b : Binder) (check : GraphCheck) (plans : List Plan) :
    (receiptsFor check b plans).length = plans.length := by
  induction plans generalizing b with
  | nil => rfl
  | cons plan rest ih => rw [receiptsFor, List.length_cons, List.length_cons, ih]

/-! ## The history -/

/-- The steps of the receipts that were granted, oldest first. -/
def steps (b : Binder) : List GraphDiff := (b.receipts.filter Receipt.isOk).flatMap Receipt.diffs

/-- The receipts tell how the graph came about. -/
structure Audited (b : Binder) : Prop where
  numbered : ∀ k receipt, b.receipts[k]? = some receipt → Numbered (k + 1) receipt
  refused : ∀ receipt ∈ b.receipts, receipt.isOk = false → receipt.diffs = []
  replayed : GraphDiff.replay? ∅ b.steps = some b.graph.parts

theorem Audited.records (h : b.Audited) {receipt : Receipt} (hc : Records b c receipt) : c.Audited := by
  refine ⟨fun k x hx => ?_, fun x hx hno => ?_, ?_⟩
  · rw [hc.receipts_eq, List.getElem?_append] at hx
    split at hx
    · exact h.numbered k x hx
    · next hk =>
      have hlast : k = b.receipts.length := by
        have hlen := (List.getElem?_eq_some_iff.1 hx).1
        rw [List.length_singleton] at hlen
        omega
      rw [hlast, Nat.sub_self] at hx
      cases hx
      exact hlast ▸ hc.numbered
  · rw [hc.receipts_eq, List.mem_append, List.mem_singleton] at hx
    rcases hx with hx | rfl
    · exact h.refused x hx hno
    · rcases hc.told with ⟨hok, -⟩ | ⟨-, hdiffs, -⟩
      · exact absurd (hok.symm.trans hno) (by decide)
      · exact hdiffs
  · have hsteps : c.steps = b.steps ++ ([receipt].filter Receipt.isOk).flatMap Receipt.diffs := by
      rw [steps, hc.receipts_eq, List.filter_append, List.flatMap_append]
      rfl
    rw [hsteps, GraphDiff.replay?_append, h.replayed, Option.bind_some]
    rcases hc.told with ⟨hok, hdiffs⟩ | ⟨hno, -, hsame⟩
    · rw [List.filter_cons_of_pos hok, List.filter_nil, List.flatMap_singleton, hdiffs]
      exact Graph.replay?_diff ..
    · rw [List.filter_cons_of_neg (by rw [hno]; decide), hsame]
      rfl

theorem Audited.carryOut (h : b.Audited) (check : GraphCheck) (plans : List Plan) :
    (b.carryOut check plans).Audited :=
  foldl_keeps (fun c plan _ hc => hc.records (records_applyPlan c check plan)) h

theorem Audited.answer (h : b.Audited) (call : BinderCall) : (b.answer call).1.Audited := by
  cases call with
  | adopt check board =>
    simp only [Binder.answer]
    split
    · next c receipt ha =>
      obtain ⟨x, -, hx, rfl⟩ := records_adopt ha
      rw [hearAll, foldl_hear]
      exact (h.records hx).carryOut check _
    · exact h
  | apply check plan => exact h.records (records_applyPlan b check plan)

theorem Audited.run (h : b.Audited) (calls : List BinderCall) : (b.run calls).Audited :=
  foldl_keeps (fun _ call _ hc => hc.answer call) h

theorem audited_of_vacant (r : AspectRegistry) (naming : Naming) (principal : String) (proposers : List Proposer) :
    Audited { registry := r, naming, principal, proposers } :=
  ⟨nofun, nofun, rfl⟩

theorem Audited.nodup (h : b.Audited) : (b.receipts.map (·.id)).Nodup := by
  rw [List.Nodup, List.pairwise_map, List.pairwise_iff_getElem]
  intro i j hi hj hlt hid
  have hsame := (h.numbered i _ (List.getElem?_eq_getElem hi)).inj (h.numbered j _ (List.getElem?_eq_getElem hj)) hid
  omega

/-- Whatever a binder is asked, its receipts tell the history of its board. A plan leaves exactly one receipt, be it
carried out or not, and a new board leaves one for itself and one for each plan that is heard about it. Receipts bear
their numbers and are told apart by them, one that refuses has no steps, and the steps of all others, replayed in order
from nothing, never add what is there or remove what is not, and come to the nodes and the edges of the graph. -/
theorem run_audited (r : AspectRegistry) (naming : Naming) (principal : String) (proposers : List Proposer)
    (calls : List BinderCall) :
    let b := run { registry := r, naming, principal, proposers } calls
    (∀ check plan, (b.applyPlan check plan).1.receipts = b.receipts ++ [(b.applyPlan check plan).2]) ∧
    (∀ check board c receipt, b.adopt check board = .ok (c, receipt) → ∃ x, b.realize board = .ok x ∧
      let plans := plansHeard check (b.declare x) (Proposer.sorted b.proposers)
      c.receipts = b.receipts ++ receipt :: receiptsFor check (b.declare x) plans ∧
        (receiptsFor check (b.declare x) plans).length = plans.length) ∧
    (∀ k receipt, b.receipts[k]? = some receipt → ∃ board, receipt.id = board ++ "#" ++ Nat.repr (k + 1)) ∧
    (b.receipts.map (·.id)).Nodup ∧
    (∀ receipt ∈ b.receipts, receipt.isOk = false → receipt.diffs = []) ∧
    ∃ parts, GraphDiff.replay? ∅ ((b.receipts.filter (·.isOk)).flatMap (·.diffs)) = some parts ∧
      (∀ id, .node id ∈ parts ↔ b.graph.nodes.contains id = true) ∧
      ∀ id, .edge id ∈ parts ↔ b.graph.edges.contains id = true := by
  intro b
  have hb : b.Audited := (audited_of_vacant r naming principal proposers).run calls
  refine ⟨fun check plan => (records_applyPlan b check plan).receipts_eq, fun check board c receipt ha => ?_,
    hb.numbered, hb.nodup, hb.refused, b.graph.parts, hb.replayed, fun _ => Graph.node_mem_parts,
    fun _ => Graph.edge_mem_parts⟩
  obtain ⟨x, hx, hrecords, rfl⟩ := records_adopt ha
  refine ⟨x, hx, ?_, length_receiptsFor ..⟩
  rw [hearAll, foldl_hear, receipts_carryOut, hrecords.receipts_eq, List.append_assoc]
  rfl

end Patchbay.Binder
