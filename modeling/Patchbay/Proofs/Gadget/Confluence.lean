import Patchbay.Proofs.Gadget.Course
import Mathlib.Data.List.Permutation

/-! Confluence: where gadgets are monotone, what a bench comes to rest at depends on the updates it had, and not on
their order, on when rounds were run, or on the order in which gadgets that wait answered. -/

namespace Patchbay

namespace Bench

/-- A value is written to a contact from outside, or rounds are run. -/
inductive Event where
  | update (contact : ContactId) (v : Json)
  | settle (rounds : Nat) (order : Nat → List Waiting → List Waiting)

namespace Event

def writes : Event → List (ContactId × Json)
  | update contact v => [(contact, v)]
  | settle .. => []

/-- A value of the carrier is written, or each gadget that waits answers once. -/
def Proper (carrier : Json → Prop) : Event → Prop
  | update _ v => carrier v
  | settle _ order => ∀ left waiting, (order left waiting).Perm waiting

end Event

def occur (b : Bench) : Event → Bench
  | .update contact v =>
    match b.engine.propagate contact v with
    | .ok (engine, _) => { b with engine }
    | .error _ => b
  | .settle rounds order => (settleWith order rounds b).1

def run (b : Bench) (events : List Event) : Bench := events.foldl occur b

/-- A bench put together and not yet used: nothing is written, and the executor listens. -/
structure Fresh (b : Bench) (l : Lattice) : Prop where
  store_built : b.engine.store.Built
  executor_built : b.executor.Built
  listens : b.Listens
  bottom : ∀ id c, b.engine.store.contacts.get? id = some c → c.lattice = l ∧ c.value = .null

theorem engine_occur_update (b : Bench) (contact : ContactId) (v : Json) :
    (b.occur (.update contact v)).engine = b.engine.deliver [(contact, v)] := by
  simp only [occur, Engine.deliver]
  cases b.engine.propagate contact v <;> rfl

theorem sameSetup_occur_update (b : Bench) (contact : ContactId) (v : Json) :
    b.SameSetup (b.occur (.update contact v)) := by
  refine .of_engine ?_ ?_ ?_
  · rw [occur]
    split <;> rfl
  · rw [engine_occur_update]
    exact (b.engine.advances_deliver _).toSameNetwork
  · rw [engine_occur_update, Engine.limits_deliver]

/-- Rounds that report a standstill leave no news that a gadget reads. -/
theorem hasPending_settleWith (order : Nat → List Waiting → List Waiting) (n : Nat) (b : Bench)
    (h : (settleWith order n b).2.quiescent = true) : (settleWith order n b).1.hasPending = false := by
  rw [quiescent_settleWith] at h
  exact (Bool.not_eq_true' _).mp h

end Bench

namespace Lattice.Lawful

variable {l : Lattice} {carrier : Json → Prop} {h : l.Lawful carrier} {b₀ b b' : Bench}
  {updates : List (ContactId × Json)} {due : List GadgetId} {waiting : List Waiting}

/-! ## One gadget after the other -/

/-- A turn keeps the course, without the gadget that has had it. -/
theorem Course.turn {round : Bench.Round} {id : GadgetId}
    (hm : ∀ id r, b₀.executor.gadgets.get? id = some r → r.Monotone l carrier id) (hl : b₀.Listens)
    (hn : (round.turn id).bench.engine.totals.truncations = round.bench.engine.totals.truncations)
    (hc : h.Course b₀ updates round.bench (id :: due) round.waiting) :
    h.Course b₀ updates (round.turn id).bench due (round.turn id).waiting := by
  rcases round.turn_cases id with ⟨⟨e, he⟩, hsame⟩ | ⟨r', x, hr', hi, hcases⟩
  · -- inputs that cannot be read need no answer
    rw [hsame]
    refine hc.dismiss fun r hr => .inr (.inr (.inr fun _ x hx => ?_))
    obtain ⟨r', hr', hg, hmount⟩ := hc.setup.get? hr
    rw [Bench.snapshot_eq_ok.2 ⟨hr', (round.bench.readInputs_eq hg hmount).trans hx⟩] at he
    cases he
  obtain ⟨r, hr, hg, hmount⟩ := hc.setup.get?_of hr'
  have hne : r.gadget.inputs ≠ [] := hc.live id List.mem_cons_self r hr
  have hact : r'.gadget.activation x = Gadget.allPresent r.gadget.inputs x := by
    rw [hg, (hm id r hr).activation]
  rw [round.bench.readInputs_eq hg hmount] at hi
  rcases hcases with ⟨hf, hw, hb⟩ | ⟨ht, hw, hb⟩ | ⟨ht, hb, hw⟩
  · rw [hw, hb]
    have hskip : h.Course b₀ updates (round.bench.skip id r' x).1 (id :: due) round.waiting :=
      (hc.deliver hl (round.bench.sameSetup_skip x hr') (rfl : _ = round.bench.engine.deliver [])
        (fun _ hp => nomatch hp) (fun _ _ _ hp => nomatch hp) rfl).1
    refine hskip.dismiss fun s hs => .inr (.inr (.inr fun _ y hy hp => ?_))
    rw [hr] at hs
    cases hs
    have hy' : round.bench.readInputs r = .ok y := hy
    rw [hi] at hy'
    cases hy'
    rw [hact, hp] at hf
    cases hf
  · rw [hb] at hn
    rw [hw, hb]
    have hunder := hc.atRest.under hne hi (hact ▸ ht)
    obtain ⟨hfire, hserved⟩ := hc.fire hl hr hr' (hm id r hr) hunder.fits
      (fun F hF => hunder.mono (hc.bounded F hF).1) hn
    refine hfire.dismiss fun s hs => ?_
    rw [hr] at hs
    cases hs
    -- its own outputs may have come back to its inputs, which is news
    rcases Bench.news_or_same (round.bench.sameSetup_fire x hr') (round.bench.advances_fire id r' x)
      (hc.setup.listens hl) r with hnews | hsame
    · exact .inl hnews
    · exact .inr (.inr (.inr (hserved ((Bench.readInputs_congr rfl hsame).trans hi))))
  · rw [hw, hb]
    refine (hc.await (w := ⟨id, r'.gadget.delay, x⟩) hr hne hi (hact ▸ ht)).dismiss fun s hs => ?_
    rw [hr] at hs
    cases hs
    exact .inr (.inr (.inl ⟨_, List.mem_append_right _ List.mem_cons_self, rfl, hi⟩))

/-- An answer keeps the course, without the gadget that waited for it. -/
theorem Course.wake {round : Bench.Round} {w : Waiting}
    (hm : ∀ id r, b₀.executor.gadgets.get? id = some r → r.Monotone l carrier id) (hl : b₀.Listens)
    (hn : (round.wake w).bench.engine.totals.truncations = round.bench.engine.totals.truncations)
    (hc : h.Course b₀ updates round.bench due (w :: waiting)) :
    h.Course b₀ updates (round.wake w).bench due waiting := by
  rcases round.wake_cases w with ⟨hnone, hb⟩ | ⟨r', hr', hb⟩
  · rw [hb]
    refine hc.release fun r hr => ?_
    obtain ⟨r', hr', -⟩ := hc.setup.get? hr
    rw [hnone] at hr'
    cases hr'
  · rw [hb] at hn ⊢
    obtain ⟨r, hr, -⟩ := hc.setup.get?_of hr'
    obtain ⟨hfire, hserved⟩ := hc.fire hl hr hr' (hm _ r hr) (hc.fits w List.mem_cons_self r hr)
      (fun F hF => (hc.bounded F hF).2 w List.mem_cons_self r hr) hn
    refine hfire.release fun s hs => ?_
    rw [hr] at hs
    cases hs
    exact hserved

/-- It does not matter in which order gadgets wait. -/
theorem Course.perm {waiting' : List Waiting} (hp : waiting'.Perm waiting)
    (hc : h.Course b₀ updates b due waiting) : h.Course b₀ updates b due waiting' where
  setup := hc.setup
  atRest := hc.atRest
  live := hc.live
  fits w hw := hc.fits w (hp.mem_iff.1 hw)
  owed id r hr := by
    refine (hc.owed id r hr).imp_right (.imp_right (.imp_left fun ⟨w, hw, he⟩ => ⟨w, hp.mem_iff.2 hw, he⟩))
  updated := hc.updated
  bounded F hF := ⟨(hc.bounded F hF).1, fun w hw => (hc.bounded F hF).2 w (hp.mem_iff.1 hw)⟩

/-- Whoever has news is given a turn. -/
theorem Course.triggered (hm : ∀ id r, b₀.executor.gadgets.get? id = some r → r.Monotone l carrier id)
    (hi : b₀.executor.Indexed) (hc : h.Course b₀ updates b [] []) :
    h.Course b₀ updates b.triggered.1 b.triggered.2 [] := by
  have hindexed := hc.setup.indexed hi
  have hids {id} : id ∈ b.triggered.2 ↔
      ∃ c, (b.executor.dirty b.engine.store).contains c = true ∧ b.executor.Reads id c := by
    refine Executor.mem_readersOf.trans (exists_congr fun c => and_congr_right fun _ => ?_)
    exact hindexed.mem_iff c id
  refine ⟨hc.setup.trans b.sameSetup_triggered,
    ⟨b.sameSetup_triggered.network.wired hc.atRest.wired, hc.atRest.carries, hc.atRest.threshold,
      hc.atRest.satisfied, hc.atRest.positive⟩,
    fun id hid r hr => ?_, nofun, fun id r hr => ?_, hc.updated, fun F hF => ⟨(hc.bounded F hF).1, nofun⟩⟩
  · obtain ⟨c, -, hreads⟩ := hids.1 hid
    obtain ⟨s, hs, hmem⟩ := hc.setup.reads_iff.1 hreads
    rw [hr] at hs
    cases hs
    obtain ⟨pin, hpin⟩ := Dict.mem_values.1 hmem
    exact List.ne_nil_of_mem ((hm id r hr).mounted pin (Dict.contains_iff.2 ⟨c, hpin⟩))
  · rcases hc.owed id r hr with ⟨pin, hp, c, hpin, hd⟩ | hm | ⟨w, hw, -⟩ | hserved
    -- the news is taken, and there is a turn in its place
    · have hreads : b₀.executor.Reads id c := ⟨r, hr, Dict.mem_values.2 ⟨pin, hpin⟩⟩
      exact .inr (.inl (hids.2 ⟨c, hd, hc.setup.reads_iff.2 hreads⟩))
    · cases hm
    · cases hw
    · exact .inr (.inr (.inr hserved))

/-! ## Whole runs -/

/-- A bench is on course, unless a call has been cut short since it began. -/
def Tracks (h : l.Lawful carrier) (b₀ : Bench) (updates : List (ContactId × Json)) (b : Bench)
    (due : List GadgetId) (waiting : List Waiting) : Prop :=
  b₀.engine.totals.truncations ≤ b.engine.totals.truncations ∧
    (b.engine.totals.truncations = b₀.engine.totals.truncations → h.Course b₀ updates b due waiting)

theorem Tracks.step {updates' : List (ContactId × Json)} {due' : List GadgetId} {waiting' : List Waiting}
    (ht : h.Tracks b₀ updates b due waiting)
    (hle : b.engine.totals.truncations ≤ b'.engine.totals.truncations)
    (hs : b'.engine.totals.truncations = b.engine.totals.truncations →
      h.Course b₀ updates b due waiting → h.Course b₀ updates' b' due' waiting') :
    h.Tracks b₀ updates' b' due' waiting' := by
  obtain ⟨hle₀, hc⟩ := ht
  exact ⟨Nat.le_trans hle₀ hle, fun hn => hs (by omega) (hc (by omega))⟩

theorem Tracks.turns (hm : ∀ id r, b₀.executor.gadgets.get? id = some r → r.Monotone l carrier id)
    (hl : b₀.Listens) (ids : List GadgetId) {round : Bench.Round}
    (ht : h.Tracks b₀ updates round.bench ids round.waiting) :
    h.Tracks b₀ updates (ids.foldl Bench.Round.turn round).bench []
      (ids.foldl Bench.Round.turn round).waiting := by
  induction ids generalizing round with
  | nil => exact ht
  | cons id rest ih => exact ih (ht.step (Bench.truncations_turn round id) (Course.turn hm hl))

theorem Tracks.wakes (hm : ∀ id r, b₀.executor.gadgets.get? id = some r → r.Monotone l carrier id)
    (hl : b₀.Listens) (waiting : List Waiting) {round : Bench.Round}
    (ht : h.Tracks b₀ updates round.bench [] waiting) :
    h.Tracks b₀ updates (waiting.foldl Bench.Round.wake round).bench [] [] := by
  induction waiting generalizing round with
  | nil => exact ht
  | cons w rest ih => exact ih (ht.step (Bench.truncations_wake round w) (Course.wake hm hl))

theorem Tracks.settleWith (hm : ∀ id r, b₀.executor.gadgets.get? id = some r → r.Monotone l carrier id)
    (hl : b₀.Listens) (hi : b₀.executor.Indexed) {order : Nat → List Waiting → List Waiting}
    (ho : ∀ left waiting, (order left waiting).Perm waiting) (n : Nat) (ht : h.Tracks b₀ updates b [] []) :
    h.Tracks b₀ updates (Bench.settleWith order n b).1 [] [] := by
  induction n generalizing b with
  | zero => exact ht
  | succ n ih =>
    have htriggered : h.Tracks b₀ updates b.triggered.1 b.triggered.2 [] :=
      ht.step (Nat.le_refl _) fun _ hc => hc.triggered hm hi
    simp only [Bench.settleWith]
    split
    · next hempty =>
      rw [List.isEmpty_iff.1 hempty] at htriggered
      exact htriggered
    · have hround : h.Tracks b₀ updates ({ bench := b.triggered.1 } : Bench.Round).bench b.triggered.2
          ({ bench := b.triggered.1 } : Bench.Round).waiting := htriggered
      have hturns := hround.turns hm hl b.triggered.2
      -- the order in which delays run out is left open
      have harranged := hturns.step (Nat.le_refl _) fun _ hc => hc.perm (ho n _)
      exact ih (harranged.wakes hm hl _)

theorem Tracks.occur (hm : ∀ id r, b₀.executor.gadgets.get? id = some r → r.Monotone l carrier id)
    (hl : b₀.Listens) (hi : b₀.executor.Indexed) {event : Bench.Event} (hp : event.Proper carrier)
    (ht : h.Tracks b₀ updates b [] []) : h.Tracks b₀ (updates ++ event.writes) (b.occur event) [] [] := by
  cases event with
  | settle n order =>
    rw [Bench.Event.writes, List.append_nil]
    exact ht.settleWith hm hl hi hp n
  | update contact v =>
    have he := b.engine_occur_update contact v
    refine ht.step (he ▸ b.engine.truncations_deliver _) fun hn hc => ?_
    have hsub {F} (hF : h.Closed b₀ (updates ++ [(contact, v)]) F) : h.Closed b₀ updates F :=
      hF.subset fun p hp => List.mem_append_left _ hp
    have hlast {F} (hF : h.Closed b₀ (updates ++ [(contact, v)]) F)
        (hin : b₀.engine.store.contains contact = true) : h.element v ≤ F contact :=
      hF.updated (contact, v) (List.mem_append_right _ List.mem_cons_self) hin
    have hs := b.sameSetup_occur_update contact v
    have ha : b.engine.store.Advances (b.occur (.update contact v)).engine.store :=
      he ▸ b.engine.advances_deliver _
    have hd : h.Delivered b.engine [(contact, v)] (b.occur (.update contact v)).engine := by
      rw [he] at hn ⊢
      exact hc.atRest.deliver (fun p hv => List.mem_singleton.1 hv ▸ hp) hn
    refine ⟨hc.setup.trans hs, hd.atRest, hc.live, hc.fits,
      fun id r hr => (hc.owed id r hr).advance hs ha (hc.setup.listens hl) hd.grows, fun p hp hin => ?_,
      fun F hF => ⟨?_, (hc.bounded F (hsub hF)).2⟩⟩
    · rcases List.mem_append.1 hp with hp | hp
      · exact (hc.updated p hp hin).trans (hd.grows p.1)
      · exact hd.reached p hp ((hc.setup.network.contains_eq p.1).trans hin)
    · refine hd.bounded F (fun a c hac => hF.edges a c (hc.setup.network.feeds_iff.1 hac))
        (hc.bounded F (hsub hF)).1 fun p hp hin => ?_
      rw [List.mem_singleton.1 hp] at hin ⊢
      exact hlast hF ((hc.setup.network.contains_eq contact).symm.trans hin)

theorem Tracks.run (hm : ∀ id r, b₀.executor.gadgets.get? id = some r → r.Monotone l carrier id)
    (hl : b₀.Listens) (hi : b₀.executor.Indexed) {events : List Bench.Event}
    (hp : ∀ event ∈ events, event.Proper carrier) (ht : h.Tracks b₀ updates b [] []) :
    h.Tracks b₀ (updates ++ events.flatMap Bench.Event.writes) (b.run events) [] [] := by
  induction events generalizing updates b with
  | nil =>
    rw [List.flatMap_nil, List.append_nil]
    exact ht
  | cons event rest ih =>
    rw [List.flatMap_cons, ← List.append_assoc]
    exact ih (fun e he => hp e (List.mem_cons_of_mem event he))
      (ht.occur hm hl hi (hp event List.mem_cons_self))

/-- A fresh bench is at rest: all is null, so that no gadget with inputs fires. -/
theorem course_fresh (h : l.Lawful carrier) (hb : b.Fresh l) (ht : 1 ≤ b.engine.limits.cycleThreshold) :
    h.Course b [] b [] [] := by
  have hbot (id) : h.level b.engine.store id = ⊥ := by
    cases hc : b.engine.store.contacts.get? id with
    | none => exact h.level_of_none hc
    | some c => rw [h.level_of_get? hc, (hb.bottom id c hc).2, h.element_null]
  have hrest : h.AtRest b.engine := by
    refine ⟨hb.store_built.wired, fun id c hc => ?_, ht, fun a c _ => ?_, fun id c hc => .inl (hb.bottom id c hc).2⟩
    · obtain ⟨hl, hv⟩ := hb.bottom id c hc
      exact ⟨hl, hv ▸ h.null_mem⟩
    · rw [hbot, hbot]
  refine ⟨.refl b, hrest, nofun, nofun, fun id r hr => ?_, nofun, fun F _ => ⟨fun id => ?_, nofun⟩⟩
  · refine .inr (.inr (.inr fun hne x hx hp => ?_))
    obtain ⟨pin, hpin⟩ := List.exists_mem_of_ne_nil _ hne
    obtain ⟨contact, -, hn, he⟩ := (hrest.read hx hp).2 pin hpin
    rw [hbot] at he
    exact absurd he hn
  · rw [hbot]
    exact bot_le

/-- At a standstill the levels of the contacts are closed. -/
theorem Course.closed (hm : ∀ id r, b₀.executor.gadgets.get? id = some r → r.Monotone l carrier id)
    (hi : b₀.executor.Indexed) (hc : h.Course b₀ updates b [] []) (hq : b.hasPending = false) :
    h.Closed b₀ updates (h.level b.engine.store) where
  edges a c hac := hc.atRest.satisfied a c (hc.setup.network.feeds_iff.2 hac)
  updated := hc.updated
  answered id r x hr hx pin contact hpin hin := by
    have hserved : h.Served b id r := by
      -- no turn is due, nobody waits, and there is no news
      rcases hc.owed id r hr with ⟨p, hp, c, hpc, hd⟩ | hd | ⟨w, hw, -⟩ | hs
      · have hreads : b₀.executor.Reads id c := ⟨r, hr, Dict.mem_values.2 ⟨p, hpc⟩⟩
        have hpending := (Executor.hasPending_iff (hc.setup.indexed hi)).2 ⟨c, id, hd, hc.setup.reads_iff.2 hreads⟩
        rw [Bench.hasPending, hpending] at hq
        cases hq
      · cases hd
      · cases hw
      · exact hs
    obtain ⟨y, hy, hp, hle⟩ := hc.atRest.exists_read hx
    refine (h.answer_le (hm id r hr) hx.fits (hc.atRest.read hy hp).1 hle hpin).trans ?_
    exact hserved hx.nonempty y hy hp pin contact hpin ((hc.setup.network.contains_eq contact).trans hin)

end Lattice.Lawful

namespace Bench

/-- Runs that write the same values from outside, in whatever order, and come to a standstill without a call that was
cut short, leave equivalent values in every contact. -/
theorem run_confluent {l : Lattice} {carrier : Json → Prop} (h : l.Lawful carrier) {b : Bench}
    (hb : b.Fresh l) (ht : 1 ≤ b.engine.limits.cycleThreshold)
    (hm : ∀ id r, b.executor.gadgets.get? id = some r → r.Monotone l carrier id) {as bs : List Event}
    (hpa : ∀ event ∈ as, event.Proper carrier) (hpb : ∀ event ∈ bs, event.Proper carrier)
    (hperm : (as.flatMap Event.writes).Perm (bs.flatMap Event.writes))
    (hqa : (b.run as).hasPending = false) (hqb : (b.run bs).hasPending = false)
    (hna : (b.run as).engine.totals.truncations = b.engine.totals.truncations)
    (hnb : (b.run bs).engine.totals.truncations = b.engine.totals.truncations) (id : ContactId)
    (hid : b.engine.store.contains id = true) :
    ∃ v w, (b.run as).engine.store.value id = .ok v ∧ (b.run bs).engine.store.value id = .ok w ∧
      l.equivalent v w = true := by
  have hi := hb.executor_built.indexed
  have hstart : h.Tracks b [] b [] [] := ⟨Nat.le_refl _, fun _ => h.course_fresh hb ht⟩
  have hca : h.Course b (as.flatMap Event.writes) (b.run as) [] [] := (hstart.run hm hb.listens hi hpa).2 hna
  have hcb : h.Course b (bs.flatMap Event.writes) (b.run bs) [] [] := (hstart.run hm hb.listens hi hpb).2 hnb
  -- the levels of each run are closed, so that the other run stays below them
  have hab := (hca.bounded _ ((hcb.closed hm hi hqb).subset fun p hp => hperm.mem_iff.1 hp)).1 id
  have hba := (hcb.bounded _ ((hca.closed hm hi hqa).subset fun p hp => hperm.mem_iff.2 hp)).1 id
  obtain ⟨c, hc⟩ := Dict.contains_iff.1 ((hca.setup.network.contains_eq id).trans hid)
  obtain ⟨d, hd⟩ := Dict.contains_iff.1 ((hcb.setup.network.contains_eq id).trans hid)
  refine ⟨c.value, d.value, ContactStore.value_eq_ok.2 ⟨c, hc, rfl⟩, ContactStore.value_eq_ok.2 ⟨d, hd, rfl⟩, ?_⟩
  rw [← h.element_eq_iff (hca.atRest.carries id c hc).2 (hcb.atRest.carries id d hd).2, ← h.level_of_get? hc,
    ← h.level_of_get? hd]
  exact le_antisymm hab hba

/-- Repeats its input, but takes its time. -/
def echoGadget : Gadget where
  inputs := ["in"]
  outputs := ["out"]
  delay := 1
  process _ call := { result := .ok (Dict.singleton "out" (call.inputs.getD "in" .null)) }

/-- A gadget that repeats its input, with its output fed back. -/
def echo : Bench where
  engine :=
    { store :=
        { contacts := Dict.ofList
            [("a", { id := "a", lattice := .disjunction, value := .null }),
              ("b", { id := "b", lattice := .disjunction, value := .null })]
          connections := Dict.singleton "c1" { id := "c1", wire := "w", source := "b", target := "a" }
          outgoing := Dict.singleton "b" ["c1"]
          listeners := [(1, .executor 0)]
          lastConnection := 1
          lastSubscription := 1 } }
  executor :=
    { gadgets := Dict.singleton "g"
        { gadget := echoGadget
          mount := { inputs := Dict.singleton "in" "a", outputs := Dict.singleton "out" "b" } }
      readers := Dict.singleton "a" (Names.ofNames ["g"])
      subscription := some 1 }

theorem mem_singleton {α : Type} {k k' : String} {v v' : α} (h : (Dict.singleton k v).get? k' = some v') :
    k' = k ∧ v' = v := by
  rw [Dict.get?_eq_some_iff] at h
  exact Prod.mk.inj (List.mem_singleton.1 h)

theorem fresh_echo : echo.Fresh .disjunction where
  store_built := by
    have ha : ContactStore.Built _ :=
      .register .empty (rfl : ContactStore.empty.register "a" .disjunction none = .ok _)
    have hb := ha.register (rfl : ContactStore.register _ "b" .disjunction none = .ok _)
    exact (hb.connect (rfl : ContactStore.connect _ "w" "b" "a" = .ok (_, "c1"))).subscribe (.executor 0)
  executor_built := by
    have hx := (Executor.Built.new 0).subscribe ContactStore.empty
    exact hx.register (rfl : Executor.register _ "g" echoGadget
      { inputs := Dict.singleton "in" "a", outputs := Dict.singleton "out" "b" } = .ok echo.executor)
  listens := ⟨1, List.mem_cons_self⟩
  bottom id c hc := by
    rw [Dict.get?_eq_some_iff] at hc
    change _ ∈ [_, _] at hc
    simp only [List.mem_cons, Prod.mk.injEq, List.not_mem_nil, or_false] at hc
    rcases hc with ⟨-, rfl⟩ | ⟨-, rfl⟩ <;> exact ⟨rfl, rfl⟩

theorem monotone_echo (id : GadgetId) (r : Registration) (hr : echo.executor.gadgets.get? id = some r) :
    r.Monotone .disjunction Lattice.Flag id := by
  obtain ⟨rfl, rfl⟩ := mem_singleton hr
  refine ⟨fun pin hp => ?_, rfl, fun _ _ _ _ => rfl, fun x pin contact v hx _ hv => ?_,
    fun x y hx hy hle pin contact hc => ?_⟩
  · obtain ⟨c, hc⟩ := Dict.contains_iff.1 hp
    obtain ⟨rfl, -⟩ := mem_singleton hc
    exact List.mem_cons_self
  · obtain ⟨rfl, rfl⟩ := mem_singleton hv
    exact Lattice.disjunction_lawful.carrier_input hx "in"
  · obtain ⟨rfl, -⟩ := mem_singleton hc
    exact hle "in" List.mem_cons_self

theorem run_confluent_echo :
    ∃ v w, (echo.run [.update "a" (.bool true), .update "b" (.bool false),
        .settle 3 fun _ => byDelay]).engine.store.value "b" = .ok v ∧
      (echo.run [.update "b" (.bool false), .settle 2 fun _ => List.reverse, .update "a" (.bool true),
        .settle 2 fun _ => List.reverse]).engine.store.value "b" = .ok w ∧
      Lattice.disjunction.equivalent v w = true := by
  refine run_confluent Lattice.disjunction_lawful fresh_echo (by decide) monotone_echo ?_ ?_ ?_
    (by cbv) (by cbv) (by cbv) (by cbv) "b" (by decide)
  · simp only [List.forall_mem_cons, Event.Proper]
    exact ⟨.inr ⟨true, rfl⟩, .inr ⟨false, rfl⟩, fun _ waiting => List.mergeSort_perm waiting _,
      fun _ he => absurd he List.not_mem_nil⟩
  · simp only [List.forall_mem_cons, Event.Proper]
    exact ⟨.inr ⟨false, rfl⟩, fun _ => List.reverse_perm, .inr ⟨true, rfl⟩, fun _ => List.reverse_perm,
      fun _ he => absurd he List.not_mem_nil⟩
  · exact .swap _ _ _

end Bench

end Patchbay
