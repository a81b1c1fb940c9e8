import Patchbay.Proofs.Contact.Call
import Patchbay.Proofs.Graph.Shape
import Patchbay.Proofs.Host.Lasting

/-! What stays in place from graph to graph. The contact of a pin is on the lattice that the pin names, from the time that
its node is put in place on. A node that stays is not put in place again, and need not be, for its pins name the lattices
that they named. -/

namespace Patchbay

namespace Workshop

variable {w : Workshop} {i : Installation} {r : Retirement} {Q : ContactId → Lattice → Prop}

theorem lattices_of_prepareNode {n : Node} {p p' : Preparation}
    (hn : ∀ pin spec l, n.pins.get? pin = some spec →
      w.lattices.get (spec.lattice.getD w.defaultLattice) = .ok l → Q (pinContact n.id pin) l)
    (h : w.prepareNode i r p n = .ok p') (hp : ∀ c l, p.lattices.get? c = some l → Q c l) :
    ∀ c l, p'.lattices.get? c = some l → Q c l := by
  obtain ⟨_, -, h⟩ := ok_of_bind h
  split at h
  · cases h
  split at h
  · cases h
  obtain ⟨lattices, hl, h⟩ := ok_of_bind h
  cases h
  refine foldlM_keeps (P := fun d : Dict Lattice => ∀ c l, d.get? c = some l → Q c l)
    (fun d pin hpin d' hd hd' => ?_) hp hl
  unfold preparePin at hd'
  simp only at hd'
  split at hd'
  · cases hd'
  obtain ⟨l, hlattice, hd'⟩ := ok_of_bind hd'
  cases hd'
  intro c l' hl'
  rcases Dict.get?_insert_eq_some.1 hl' with ⟨rfl, rfl⟩ | ⟨-, hl'⟩
  · exact hn pin.1 pin.2 l (Dict.get?_eq_some_iff.2 hpin) (ok_of_mapError hlattice)
  · exact hd c l' hl'

/-- The lattices at hand are those that pins of the new graph name. -/
theorem lattices_of_prepare {old new : Graph} {p : Preparation} (hp : w.prepare new (old.diff new) i = .ok p)
    {c : ContactId} {l : Lattice} (hl : p.lattices.get? c = some l) :
    ∃ id n pin spec, new.nodes.get? id = some n ∧ n.pins.get? pin = some spec ∧ c = pinContact n.id pin ∧
      w.lattices.get (spec.lattice.getD w.defaultLattice) = .ok l := by
  obtain ⟨p', hnodes, hp⟩ := ok_of_bind hp
  obtain ⟨_, -, hp⟩ := ok_of_bind hp
  cases hp
  let Q (c : ContactId) (l : Lattice) : Prop := ∃ id n pin spec, new.nodes.get? id = some n ∧
    n.pins.get? pin = some spec ∧ c = pinContact n.id pin ∧ w.lattices.get (spec.lattice.getD w.defaultLattice) = .ok l
  refine foldlM_keeps (P := fun p : Preparation => ∀ c l, p.lattices.get? c = some l → Q c l)
    (fun p n hn p' hp hp' => ?_) (fun c l hl => by cases hl) hnodes c l hl
  obtain ⟨id, hid, -⟩ := Graph.mem_addedNodes.1 hn
  exact lattices_of_prepareNode (fun pin spec l hspec hl => ⟨id, n, pin, spec, hid, hspec, rfl, hl⟩) hp' hp

end Workshop

namespace Installation

variable {w : Workshop} {i : Installation} {g old new : Graph} {p : Preparation} {s₀ s s' : ContactStore}

/-! ## Steps -/

/-- Each contact is on a lattice at hand, or on that which it was on before. -/
def Inherits (p : Preparation) (s₀ s : ContactStore) : Prop :=
  ∀ c x, s.contacts.get? c = some x →
    p.lattices.get? c = some x.lattice ∨ ∃ x₀, s₀.contacts.get? c = some x₀ ∧ x₀.lattice = x.lattice

theorem inherits_addContacts (h : Inherits p s₀ s) {node : NodeId} {pins : List (PinName × PinSpec)}
    (hs : pins.foldlM (addContact p node) s = .ok s') : Inherits p s₀ s' := by
  refine foldlM_keeps (P := Inherits p s₀) (fun s pin _ t h ht => ?_) h hs
  unfold addContact at ht
  simp only at ht
  split at ht
  · cases ht
  next l hl =>
  obtain ⟨v, -, -, rfl⟩ := ContactStore.register_cases (ok_of_mapError ht)
  intro c x hx
  rcases Dict.get?_insert_eq_some.1 hx with ⟨rfl, rfl⟩ | ⟨-, hx⟩
  · exact .inl hl
  · exact h c x hx

theorem inherits_dropContacts (h : Inherits p s₀ s) {cs : List ContactId} (hs : cs.foldlM dropContact s = .ok s') :
    Inherits p s₀ s' := by
  refine foldlM_keeps (P := Inherits p s₀) (fun s c _ t h ht => ?_) h hs
  unfold dropContact at ht
  split at ht
  · next hr =>
    cases ht
    obtain ⟨_, -, hr⟩ := ok_of_bind hr
    cases hr
    intro c' x hx
    rw [ContactStore.contacts_foldl_dropConnection] at hx
    exact h c' x (Dict.get?_erase_eq_some.1 hx).2
  · cases ht

theorem inherits_step {s s' : Progress} {d : GraphDiff} (h : Inherits p s₀ s.installation.store)
    (hs : step g p s d = .ok s') : Inherits p s₀ s'.installation.store := by
  rcases step_cases hs with rfl | ⟨_, id, rfl⟩ | ⟨_, _, _, _, _, -, hstore, rfl⟩ | ⟨_, _, _, _, hstore, -, rfl⟩ |
    ⟨e, _, _, hc, rfl⟩
  · exact h
  · intro c x hx
    exact h c x (ContactStore.contacts_dropConnection .. ▸ hx)
  · exact inherits_dropContacts h hstore
  · exact inherits_addContacts h hstore
  · unfold ContactStore.connect at hc
    split at hc
    · cases hc
    split at hc <;> cases hc
    exact h

theorem inherits_install (i : Installation) (g : Graph) (diffs : List GraphDiff) (p : Preparation) :
    Inherits p i.store (i.install g diffs p).1.store := by
  have hsteps : Inherits p i.store (diffs.foldl (stepOrSkip g p) { installation := i }).installation.store := by
    refine foldl_keeps (P := fun t : Progress => Inherits p i.store t.installation.store) (fun t d _ ht => ?_)
      fun c x hx => .inr ⟨x, hx, rfl⟩
    unfold stepOrSkip
    split
    · next hs => exact inherits_step ht hs
    · exact ht
  unfold Installation.install
  set t := diffs.foldl (stepOrSkip g p) { installation := i }
  have hnetwork := (advances_flush t.sources.keys (t.installation.bench.engine, {})).1.toSameNetwork
  intro c x hx
  obtain ⟨y, hy, -, hlattice⟩ := hnetwork.symm.get? hx
  exact hlattice ▸ hsteps c y hy

/-! ## Graphs -/

/-- The contacts of pins are on the lattices that the pins name. -/
def OnLattices (w : Workshop) (s : ContactStore) (g : Graph) : Prop :=
  ∀ id n pin spec c, g.nodes.get? id = some n → n.pins.get? pin = some spec →
    s.contacts.get? (pinContact id pin) = some c → w.lattices.get (spec.lattice.getD w.defaultLattice) = .ok c.lattice

theorem OnLattices.sameNetwork (h : OnLattices w s g) (hs : s.SameNetwork s') : OnLattices w s' g := by
  intro id n pin spec c hn hspec hc
  obtain ⟨d, hd, -, hlattice⟩ := hs.symm.get? hc
  exact hlattice ▸ h id n pin spec d hn hspec hd

/-- What is installed anew is on the lattices at hand, and what stays need not be installed anew. -/
theorem OnLattices.install (h : OnLattices w i.store old) (hm : i.Mirrors old) (hold : old.Grounded)
    (hnew : new.Grounded)
    (hstay : ∀ id n n', old.nodes.get? id = some n → new.nodes.get? id = some n' → n'.pins = n.pins)
    (hp : w.prepare new (old.diff new) i = .ok p) : OnLattices w (i.install new (old.diff new) p).1.store new := by
  intro id n pin spec c hn hspec hc
  have hdot : '.' ∉ id.toList := hnew.undotted id (Dict.contains_of_get? hn)
  rcases inherits_install i new (old.diff new) p _ c hc with hl | ⟨c₀, hc₀, hlattice⟩
  · obtain ⟨id', m, pin', spec', hm', hspec', hcontact, hl⟩ := Workshop.lattices_of_prepare hp hl
    rw [hnew.node_id id' m hm'] at hcontact
    obtain ⟨rfl, rfl⟩ := pinContact_inj hdot (hnew.undotted id' (Dict.contains_of_get? hm')) hcontact
    rw [hn] at hm'
    cases hm'
    rw [hspec] at hspec'
    cases hspec'
    exact hl
  · obtain ⟨id', m, pin', hm', -, hcontact⟩ := (hm.contacts _).1 (Dict.contains_of_get? hc₀)
    obtain ⟨rfl, rfl⟩ := pinContact_inj hdot (hold.undotted id' (Dict.contains_of_get? hm')) hcontact
    rw [hstay id m n hm' hn] at hspec
    exact hlattice ▸ h id m pin spec c₀ hm' hspec hc₀

end Installation

/-! ## Boards -/

namespace LiveBoard

variable {r : AspectRegistry} {naming : Naming} {w : Workshop} {b b' : LiveBoard}

/-- A kept board with its contacts on the lattices that pins name. -/
structure Tuned (r : AspectRegistry) (naming : Naming) (w : Workshop) (b : LiveBoard) : Prop
    extends b.Kept r naming where
  lattices : Installation.OnLattices w b.store b.graph

theorem tuned_of_start {binder : Binder} {limits : PropagationLimits} {maxRounds : Nat} {board : Board}
    {report : UpdateReport} (hb : binder.Kept r naming)
    (h : start w binder limits maxRounds board = .ok (b, report)) : b.Tuned r naming w := by
  have hk := kept_of_start hb h
  obtain ⟨c, receipt, p, ha, hp, he⟩ := start_eq_ok.1 h
  obtain rfl : b = _ := congrArg Prod.fst he
  have hc : c.Kept r naming := hb.adopt ha
  refine ⟨hk, Installation.OnLattices.sameNetwork ?_ (Bench.sameSetup_settleWith ..).network⟩
  refine Installation.OnLattices.install (fun id n _ _ _ hn => absurd hn (Graph.not_node_empty id n))
    (Installation.mirrors_empty limits).subscribe Graph.grounded_empty hc.grounded
    (fun id n _ hn => absurd hn (Graph.not_node_empty id n)) ?_
  exact hp

namespace Tuned

theorem withBench (h : b.Tuned r naming w) {bench : Bench} (hs : b.installation.bench.SameSetup bench) :
    (b.withBench bench).Tuned r naming w :=
  ⟨h.toKept.withBench hs, h.lattices.sameNetwork hs.network⟩

theorem settle (h : b.Tuned r naming w) (propagation : PropagationStats) : (b.settle propagation).1.Tuned r naming w :=
  h.withBench (Bench.sameSetup_settleWith ..)

theorem applyPlan (h : b.Tuned r naming w) (hn : naming.Faithful) (plan : Plan) :
    (b.applyPlan w plan).1.Tuned r naming w := by
  have hk := h.toKept.applyPlan hn w plan
  rcases h.applyPlan_cases hn w plan with ⟨binder, p, hb, -, hpersists, hp, he⟩ | ⟨binder, hb, hbound, he⟩
  · rw [he] at hk ⊢
    refine ⟨hk, Installation.OnLattices.sameNetwork ?_ (Bench.sameSetup_settleWith ..).network⟩
    refine h.lattices.install h.mirrors h.binder.grounded hb.grounded (fun id n n' hid hid' => ?_) hp
    rw [hpersists.nodes id n n' hid hid']
  · have hgraph : LiveBoard.graph { b with binder } = b.graph := by
      rw [LiveBoard.graph, LiveBoard.graph, Binder.graph, Binder.graph, hbound]
    rw [he] at hk ⊢
    refine ⟨hk, ?_⟩
    rw [hgraph]
    exact h.lattices

theorem update (h : b.Tuned r naming w) {contact : ContactId} {value : Json} {report : UpdateReport}
    (hu : b.update contact value = .ok (b', report)) : b'.Tuned r naming w := by
  obtain ⟨engine, stats, -, hs, he⟩ := update_cases hu
  obtain rfl : b' = _ := congrArg Prod.fst he
  exact (h.withBench hs).settle stats

theorem execute (h : b.Tuned r naming w) {gadget : GadgetId} {report : UpdateReport}
    (hx : b.execute gadget = .ok (b', report)) : b'.Tuned r naming w := by
  obtain ⟨bench, execution, -, hs, he⟩ := execute_cases hx
  obtain rfl : b' = _ := congrArg Prod.fst he
  exact (h.withBench hs).settle {}

theorem turn (h : b.Tuned r naming w) (hn : naming.Faithful) (ht : b.Turns w b') : b'.Tuned r naming w := by
  cases ht with
  | unchanged => exact h
  | applyPlan plan => exact h.applyPlan hn plan
  | update hu => exact h.update hu
  | execute hx => exact h.execute hx

end Tuned

end LiveBoard

namespace Host

variable {h : Host}

theorem lasting_tuned (hn : h.naming.Faithful) : h.Lasting (LiveBoard.Tuned h.aspects h.naming h.workshop) where
  start hs := LiveBoard.tuned_of_start (Binder.kept_of_vacant ..) hs
  turn hb ht := hb.turn hn ht
  takeNotes hb := hb.withBench (.of_engine rfl (.refl _) rfl)
  listen l hb := ⟨hb.toKept.listen l, hb.lattices⟩

/-- An identity tells all there is to a thing but for what a shim comes from and the tags of an edge. So it is from graph to
graph of a binder, whatever has been asked of it and whichever plans have been heard about a new board; and so a board, on
which nothing is done but what the steps of receipts name, never has a mount, a connection or a lattice in place other than
that of its graph. -/
theorem identities_persist {naming : Naming} (hn : naming.Faithful) (r : AspectRegistry) (principal : String)
    (proposers : List Proposer) (calls : List BinderCall) :
    let b := Binder.run { registry := r, naming, principal, proposers } calls
    (∀ check plan, (b.applyPlan check plan).2.isOk = true →
      b.graph.Persists (b.applyPlan check plan).1.graph (b.applyPlan check plan).2.diffs) ∧
    (∀ check board x plans plan, b.realize board = .ok x →
      let c := (b.declare x).carryOut check plans
      (c.applyPlan check plan).2.isOk = true →
        c.graph.Persists (c.applyPlan check plan).1.graph (c.applyPlan check plan).2.diffs) ∧
    ∀ (h : Host) (events : List HostEvent) id live, h.naming = naming → h.boards = ∅ →
      (h.after events).boards.get? id = some live → live.installation.Mirrors live.graph ∧
        ∀ node n pin spec, live.graph.nodes.get? node = some n → n.pins.get? pin = some spec →
          ∃ c, live.store.contacts.get? (pinContact node pin) = some c ∧
            h.workshop.lattices.get (spec.lattice.getD h.workshop.defaultLattice) = .ok c.lattice := by
  intro b
  have hb : b.Kept r naming := (Binder.kept_of_vacant r naming principal proposers).run calls
  refine ⟨fun check plan hok => hb.persists hn hok, fun check board x plans plan hx => ?_,
    fun h events id live hnaming hboards hlive => ?_⟩
  · have hc := (hb.declare hx).carryOut check plans
    exact fun hok => hc.persists hn hok
  · have htuned := (lasting_tuned (hnaming ▸ hn)).all_after hboards events id live hlive
    refine ⟨htuned.mirrors, fun node n pin spec hnode hspec => ?_⟩
    obtain ⟨c, hc⟩ := Dict.contains_iff.1
      ((htuned.mirrors.contacts _).2 ⟨node, n, pin, hnode, Dict.contains_of_get? hspec, rfl⟩)
    exact ⟨c, hc, htuned.lattices node n pin spec c hnode hspec hc⟩

/-- A second instance of an aspect comes to the shim that there was, and a gadget to the end of a deferred wire. -/
theorem identities_persist_spanned :
    let b := Binder.run { registry := .builtin, naming := .spelled } [.adopt Binder.noCheck Board.spannedBoard]
    let plan : Plan := { edit := .weaveWires (.hasAspect "tap") { aspect := "tap" } }
    let h := after { naming := .spelled } [.call (.start relayBoard), .call (.mount "b" "t" "h" "passthrough")]
    (b.applyPlan Binder.noCheck plan).2.isOk = true ∧
    b.graph.Persists (b.applyPlan Binder.noCheck plan).1.graph (b.applyPlan Binder.noCheck plan).2.diffs ∧
    ∃ live, h.boards.get? "b" = some live ∧ live.graph.nodes.size = 3 ∧ live.installation.Mirrors live.graph := by
  intro b plan h
  obtain ⟨hplans, -, hhosts⟩ := identities_persist Naming.faithful_spelled .builtin "binder" []
    [.adopt Binder.noCheck Board.spannedBoard]
  have hok : (b.applyPlan Binder.noCheck plan).2.isOk = true := by decide +kernel
  have hlive : (h.boards.get? "b").map (fun live => live.graph.nodes.size) = some 3 := by decide +kernel
  obtain ⟨live, hlive, hsize⟩ := Option.map_eq_some_iff.1 hlive
  exact ⟨hok, hplans _ plan hok, live, hlive, hsize, (hhosts { naming := .spelled } _ "b" live rfl rfl hlive).1⟩

end Host

end Patchbay
