import Patchbay.Proofs.Gadget.Trigger
import Patchbay.Proofs.Gadget.Confluence
import Patchbay.Proofs.Propagation.History

/-! No trigger is lost. Whatever calls are made on a bench, once rounds come to a standstill every gadget with an input
contact that changed since the gadget was put in place was last executed with its present inputs. -/

namespace Patchbay

namespace Engine

namespace Call

def Heeds (l : Listener) (n : Subscription) : Call → Prop
  | store call => call.Heeds l n
  | propagate .. => True

def Spares (contacts : List ContactId) : Call → Prop
  | store call => call.Spares contacts
  | propagate .. => True

end Call

variable {e : Engine} {call : Call} {l : Listener} {n : Subscription} {contacts : List ContactId}

theorem listeners_occur (hc : call.Heeds l n) (hl : (n, l) ∈ e.store.listeners) :
    (n, l) ∈ (e.occur call).store.listeners := by
  unfold occur
  split
  · next e' hp =>
    cases call with
    | store call =>
      obtain ⟨s, hs, rfl⟩ := ok_of_map hp
      exact StoreCall.listeners_perform hs hc hl
    | propagate source v =>
      obtain ⟨⟨t, stats⟩, ht, rfl⟩ := ok_of_map hp
      rw [(advances_propagate ht).listeners_eq]
      exact hl
  · exact hl

theorem reports_occur (hh : call.Heeds l n) (hc : call.Spares contacts) (hl : (n, l) ∈ e.store.listeners)
    (hin : ∀ id ∈ contacts, e.store.contains id = true) :
    e.store.Reports (e.occur call).store l contacts ∧ ∀ id ∈ contacts, (e.occur call).store.contains id = true := by
  unfold occur
  split
  · next e' hp =>
    cases call with
    | store call =>
      obtain ⟨s, hs, rfl⟩ := ok_of_map hp
      exact StoreCall.reports_perform hs hh hc hl hin
    | propagate source v =>
      obtain ⟨⟨t, stats⟩, ht, rfl⟩ := ok_of_map hp
      have hadv := advances_propagate ht
      exact ⟨hadv.reports hl contacts, fun id hid => by rw [hadv.contains_eq]; exact hin id hid⟩
  · exact ⟨.refl .., hin⟩

end Engine

namespace Executor

variable {x x' : Executor} {id : GadgetId}

/-- A gadget that is registered is new, and its pins are bound. -/
theorem register_cases {gadget : Gadget} {mount : Mount} (h : x.register id gadget mount = .ok x') :
    x.gadgets.get? id = none ∧ (∀ pin ∈ gadget.inputs, mount.inputs.contains pin = true) ∧
      ∃ readers, x' = { x with gadgets := x.gadgets.insert id { gadget, mount }, readers } := by
  unfold register at h
  split at h
  · cases h
  next hnew =>
  split at h
  · cases h
  next hbound =>
  cases h
  refine ⟨Dict.contains_eq_false_iff.1 (Bool.eq_false_iff.2 hnew), fun pin hp => ?_, _, rfl⟩
  simpa using List.find?_eq_none.1 hbound pin hp

theorem unregister_cases {mount : Mount} (h : x.unregister id = .ok (x', mount)) :
    ∃ readers, x' = { x with gadgets := x.gadgets.erase id, readers } := by
  obtain ⟨r, -, h⟩ := ok_of_bind h
  cases h
  exact ⟨_, rfl⟩

end Executor

namespace Bench

/-! ## Calls -/

inductive Call where
  | engine (call : Engine.Call)
  | register (id : GadgetId) (gadget : Gadget) (mount : Mount)
  | unregister (id : GadgetId)
  | execute (id : GadgetId) (force : Bool)
  | settle (rounds : Nat) (order : Nat → List Waiting → List Waiting)
  | wait (now : Instant)

namespace Call

/-- A call neither takes the letters of a listener, unless it runs rounds, nor ends its subscription; and in a round each
gadget that waits answers once. -/
def Heeds (l : Listener) (n : Subscription) : Call → Prop
  | engine call => call.Heeds l n
  | settle _ order => ∀ left waiting, (order left waiting).Perm waiting
  | _ => True

/-- A call leaves a gadget in place, and the contacts of a list registered. -/
def Spares (id : GadgetId) (contacts : List ContactId) : Call → Prop
  | engine call => call.Spares contacts
  | unregister k => k ≠ id
  | _ => True

end Call

/-- A call is made. One that is refused has no effect. -/
def perform (b : Bench) : Call → Bench
  | .engine call => { b with engine := b.engine.occur call }
  | .register id gadget mount =>
    match b.executor.register id gadget mount with
    | .ok executor => { b with executor }
    | .error _ => b
  | .unregister id =>
    match b.executor.unregister id with
    | .ok (executor, _) => { b with executor }
    | .error _ => b
  | .execute id force =>
    match b.execute id force with
    | .ok (b', _) => b'
    | .error _ => b
  | .settle rounds order => (settleWith order rounds b).1
  | .wait now => { b with now }

def performAll (b : Bench) (calls : List Call) : Bench := calls.foldl perform b

/-- The executor still listens as it did when the bench was `b₀`, and knows which gadgets read which contacts. -/
structure Attends (b₀ : Bench) (n : Subscription) (b : Bench) : Prop where
  indexed : b.executor.Indexed
  listener_eq : b.executor.listener = b₀.executor.listener
  hears : (n, b₀.executor.listener) ∈ b.engine.store.listeners

variable {b₀ b b' : Bench} {n : Subscription} {id : GadgetId} {r : Registration}

theorem Attends.sameSetup (h : Attends b₀ n b) (hs : b.SameSetup b') : Attends b₀ n b' where
  indexed := hs.indexed h.indexed
  listener_eq := hs.listener_eq.trans h.listener_eq
  hears := by
    rw [hs.network.listeners_eq]
    exact h.hears

theorem Attends.perform (h : Attends b₀ n b) {call : Call} (hc : call.Heeds b₀.executor.listener n) :
    Attends b₀ n (b.perform call) := by
  cases call with
  | engine call => exact ⟨h.indexed, h.listener_eq, Engine.listeners_occur hc h.hears⟩
  | register k gadget mount =>
    simp only [Bench.perform]
    split
    · next x hx =>
      obtain ⟨-, -, readers, rfl⟩ := Executor.register_cases hx
      exact ⟨h.indexed.register hx, h.listener_eq, h.hears⟩
    · exact h
  | unregister k =>
    simp only [Bench.perform]
    split
    · next x mount hx =>
      obtain ⟨readers, rfl⟩ := Executor.unregister_cases hx
      exact ⟨h.indexed.unregister hx, h.listener_eq, h.hears⟩
    · exact h
  | execute k force =>
    simp only [Bench.perform]
    split
    · next b' x hb => exact h.sameSetup (sameSetup_execute hb)
    · exact h
  | settle rounds order => exact h.sameSetup (sameSetup_settleWith order rounds b)
  | wait now => exact ⟨h.indexed, h.listener_eq, h.hears⟩

theorem Attends.performAll {calls : List Call} (h : Attends b₀ n b)
    (hc : ∀ call ∈ calls, call.Heeds b₀.executor.listener n) : Attends b₀ n (b.performAll calls) :=
  foldl_keeps (P := Attends b₀ n) (fun _ call hm hb => hb.perform (hc call hm)) h

/-- Whatever call is made, a gadget that is spared stays watched. -/
theorem Watched.perform (h : Watched b₀ id r n b [] []) {call : Call}
    (hh : call.Heeds b.executor.listener n) (hc : call.Spares id r.mount.inputs.values) :
    Watched b₀ id r n (b.perform call) [] [] := by
  cases call with
  | engine call =>
    obtain ⟨hreports, hpresent⟩ := Engine.reports_occur hh hc h.hears h.present
    exact h.advance h.indexed rfl (Engine.listeners_occur hh h.hears) rfl hpresent hreports
  | register k gadget mount =>
    simp only [Bench.perform]
    split
    · next x hx =>
      obtain ⟨hnew, -, readers, rfl⟩ := Executor.register_cases hx
      refine h.advance (h.indexed.register hx) rfl h.hears (Dict.get?_insert_of_ne _ ?_ _) h.present (.refl ..)
      rintro rfl
      obtain ⟨r', hr', -⟩ := h.placed
      rw [hnew] at hr'
      cases hr'
    · exact h
  | unregister k =>
    simp only [Bench.perform]
    split
    · next x mount hx =>
      obtain ⟨readers, rfl⟩ := Executor.unregister_cases hx
      exact h.advance (h.indexed.unregister hx) rfl h.hears (Dict.get?_erase_of_ne _ (Ne.symm hc)) h.present
        (.refl ..)
    · exact h
  | execute k force =>
    simp only [Bench.perform]
    split
    · next b' x hb =>
      obtain ⟨r', inputs, hr', hi, ha⟩ := acts_execute hb
      refine h.act ha ?_ nofun nofun nofun
      rintro rfl -
      exact h.readInputs_placed hr' hi
    · exact h
  | settle rounds order => exact h.settleWith hh rounds
  | wait now => exact h.advance h.indexed rfl h.hears rfl h.present (.refl ..)

theorem Watched.performAll {b₁ : Bench} {calls : List Call} (h : Watched b₁ id r n b [] []) (ha : Attends b₀ n b)
    (hh : ∀ call ∈ calls, call.Heeds b₀.executor.listener n)
    (hc : ∀ call ∈ calls, call.Spares id r.mount.inputs.values) :
    Watched b₁ id r n (b.performAll calls) [] [] := by
  induction calls generalizing b with
  | nil => exact h
  | cons call rest ih =>
    have hcall := hh call List.mem_cons_self
    exact ih (h.perform (ha.listener_eq ▸ hcall) (hc call List.mem_cons_self)) (ha.perform hcall)
      (fun c hm => hh c (List.mem_cons_of_mem call hm)) fun c hm => hc c (List.mem_cons_of_mem call hm)

/-- At a standstill a gadget that reads a contact that changed has been answered with its present inputs. -/
theorem Watched.answered (h : Watched b₀ id r n b [] []) (hq : b.hasPending = false)
    (hchanged : ∃ c ∈ r.mount.inputs.values, b.engine.store.contacts.get? c ≠ b₀.engine.store.contacts.get? c) :
    b.Answered id r := by
  rcases h.awaited with ⟨c, hc, hd⟩ | ⟨-, hid | ⟨w, hm, -⟩ | hans | hsame⟩
  · obtain ⟨r', hr', -, hm⟩ := h.placed
    have hreads : b.executor.Reads id c := ⟨r', hr', hm ▸ hc⟩
    have hpending := (Executor.hasPending_iff h.indexed).2 ⟨c, id, hd, hreads⟩
    rw [hasPending, hpending] at hq
    cases hq
  · cases hid
  · cases hm
  · exact hans
  · obtain ⟨c, hc, hne⟩ := hchanged
    exact absurd (hsame c hc) hne

/-- Rounds that end in a standstill leave no gadget behind. One that has been in place since some call, on contacts that
stayed registered, one of which changed after it was put there, was last executed with what its pins hold now. -/
theorem settle_answers {b₀ : Bench} (hx : b₀.executor.Built) {n : Subscription}
    (hn : (n, b₀.executor.listener) ∈ b₀.engine.store.listeners) {before after : List Call} {id : GadgetId}
    {gadget : Gadget} {mount : Mount} {x : Executor}
    (hheeds : ∀ call ∈ before ++ after, call.Heeds b₀.executor.listener n)
    (hr : (b₀.performAll before).executor.register id gadget mount = .ok x)
    (hpresent : ∀ c ∈ mount.inputs.values, (b₀.performAll before).engine.store.contains c = true)
    (hafter : ∀ call ∈ after, call.Spares id mount.inputs.values) {rounds : Nat}
    {order : Nat → List Waiting → List Waiting} (ho : ∀ left waiting, (order left waiting).Perm waiting)
    {b : Bench} {report : Quiescence}
    (hb : settleWith order rounds (b₀.performAll (before ++ .register id gadget mount :: after)) = (b, report))
    (hq : report.quiescent = true)
    (hchanged : ∃ c ∈ mount.inputs.values, (b.engine.store.contacts.get? c).map (·.version) ≠
      ((b₀.performAll before).engine.store.contacts.get? c).map (·.version)) :
    ∃ r last, b.executor.gadgets.get? id = some r ∧ r.gadget = gadget ∧ r.mount = mount ∧
      r.stats.last = some last ∧ last.gadget = id ∧
      ∀ pin, (pin ∈ gadget.inputs → ∃ contact v, mount.inputs.get? pin = some contact ∧
          b.engine.store.value contact = .ok v ∧ last.inputs.get? pin = some v) ∧
        (pin ∉ gadget.inputs → last.inputs.get? pin = none) := by
  let b₁ := b₀.performAll before
  let b₂ : Bench := { b₁ with executor := x }
  let r₀ : Registration := { gadget, mount }
  obtain ⟨-, hbound, readers, hxe⟩ := Executor.register_cases hr
  have hstep : b₁.perform (.register id gadget mount) = b₂ := by
    simp only [Bench.perform, b₁, b₂, hr]
  have hrun : b₀.performAll (before ++ .register id gadget mount :: after) = b₂.performAll after := by
    rw [Bench.performAll, List.foldl_append, List.foldl_cons]
    exact congrArg (fun b => Bench.performAll b after) hstep
  have ha₁ : Attends b₀ n b₁ :=
    Attends.performAll ⟨hx.indexed, rfl, hn⟩ fun call hm => hheeds call (List.mem_append_left after hm)
  have ha₂ : Attends b₀ n (b₁.perform (.register id gadget mount)) := ha₁.perform trivial
  rw [hstep] at ha₂
  have hplaced : b₂.executor.gadgets.get? id = some r₀ := by
    simp only [b₂, hxe]
    exact Dict.get?_insert_self ..
  -- when it is put in place, nothing that the gadget reads has changed
  have hwatched : Watched b₁ id r₀ n b₂ [] [] :=
    ⟨ha₂.indexed, ha₂.listener_eq ▸ ha₂.hears, ⟨r₀, hplaced, rfl, rfl⟩, hpresent,
      .inr ⟨nofun, .inr (.inr (.inr fun _ _ => rfl))⟩⟩
  have hsettled : Watched b₁ id r₀ n b [] [] := by
    have hend := (hwatched.performAll ha₂ (fun call hm => hheeds call (List.mem_append_right before hm))
      hafter).settleWith ho rounds
    rwa [← hrun, hb] at hend
  have hpending : b.hasPending = false := by
    have hend := hasPending_settleWith order rounds (b₀.performAll (before ++ .register id gadget mount :: after))
    rw [hb] at hend
    exact hend hq
  obtain ⟨c, hc, hne⟩ := hchanged
  obtain ⟨r, last, hr', hlast, hid, hread⟩ :=
    hsettled.answered hpending ⟨c, hc, fun he => hne (congrArg (Option.map (·.version)) he)⟩
  obtain ⟨r', hr'', hg, hm⟩ := hsettled.placed
  rw [hr'] at hr''
  cases hr''
  refine ⟨r, last, hr', hg, hm, hlast, hid, fun pin => ⟨fun hp => ?_, (get?_readInputs hread pin).2⟩⟩
  obtain ⟨v, hv, hpin⟩ := (get?_readInputs hread pin).1 hp
  obtain ⟨contact, hcontact⟩ := Dict.contains_iff.1 (hbound pin hp)
  rw [pinValue, hcontact] at hpin
  exact ⟨contact, v, hcontact, hpin, hv⟩

/-- A bench whose executor listens, with nothing on it yet. -/
def bare : Bench where
  engine := { store := { listeners := [(1, .executor 0)], lastSubscription := 1 } }
  executor := { subscription := some 1 }

theorem built_bare : bare.executor.Built := (Executor.Built.new 0).subscribe ContactStore.empty

/-- The news is left over from rounds that were none. -/
theorem settle_answers_echo :
    let mount : Mount := { inputs := Dict.singleton "in" "a" }
    let before : List Call := [.engine (.store (.register "a" .disjunction none))]
    let after : List Call := [.engine (.propagate "a" (.bool true)), .settle 0 fun _ => byDelay]
    ∃ b report r last, settleWith (fun _ => List.reverse) 1
        (bare.performAll (before ++ .register "g" echoGadget mount :: after)) = (b, report) ∧
      b.executor.gadgets.get? "g" = some r ∧ r.stats.last = some last ∧
      last.inputs.get? "in" = some (.bool true) := by
  intro mount before after
  have hinputs : ∀ c ∈ mount.inputs.values, c = "a" := by
    intro c hc
    obtain ⟨k, hk⟩ := Dict.mem_values.1 hc
    exact (mem_singleton hk).2
  have hheeds : ∀ call ∈ before ++ after, call.Heeds bare.executor.listener 1 := by
    simp only [before, after, List.cons_append, List.nil_append, List.forall_mem_cons]
    exact ⟨trivial, trivial, fun _ waiting => List.mergeSort_perm waiting _, nofun⟩
  have hpresent : ∀ c ∈ mount.inputs.values, (bare.performAll before).engine.store.contains c = true :=
    fun c hc => hinputs c hc ▸ rfl
  have hafter : ∀ call ∈ after, call.Spares "g" mount.inputs.values := by
    simp only [after, List.forall_mem_cons]
    exact ⟨trivial, trivial, nofun⟩
  have hquiet : (settleWith (fun _ => List.reverse) 1
      (bare.performAll (before ++ .register "g" echoGadget mount :: after))).2.quiescent = true := by cbv
  have hversion : ((settleWith (fun _ => List.reverse) 1 (bare.performAll
      (before ++ .register "g" echoGadget mount :: after))).1.engine.store.contacts.get? "a").map (·.version) =
        some 1 := by cbv
  have hvalue : (settleWith (fun _ => List.reverse) 1 (bare.performAll
      (before ++ .register "g" echoGadget mount :: after))).1.engine.store.value "a" = .ok (.bool true) := by cbv
  generalize hb : settleWith (fun _ => List.reverse) 1
    (bare.performAll (before ++ .register "g" echoGadget mount :: after)) = p at hquiet hversion hvalue
  obtain ⟨b, report⟩ := p
  have hchanged : ∃ c ∈ mount.inputs.values, (b.engine.store.contacts.get? c).map (·.version) ≠
      ((bare.performAll before).engine.store.contacts.get? c).map (·.version) :=
    ⟨"a", Dict.mem_values.2 ⟨"in", rfl⟩, by rw [hversion]; decide⟩
  obtain ⟨r, last, hr, -, -, hlast, -, hpins⟩ := settle_answers built_bare List.mem_cons_self hheeds
    (rfl : (bare.performAll before).executor.register "g" echoGadget mount = .ok _) hpresent hafter
    (fun _ => List.reverse_perm) hb hquiet hchanged
  obtain ⟨contact, v, hcontact, hv, hin⟩ := (hpins "in").1 List.mem_cons_self
  obtain ⟨-, rfl⟩ := mem_singleton hcontact
  rw [hvalue] at hv
  cases hv
  exact ⟨b, report, r, last, rfl, hr, hlast, hin⟩

end Bench

end Patchbay
