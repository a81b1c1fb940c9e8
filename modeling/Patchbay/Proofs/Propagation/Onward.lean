import Patchbay.Proofs.Contact.Fed
import Patchbay.Proofs.Propagation.Depth

/-! What changed contacts pass on. A contact that a task has raised passes its new value on to everyone whom it feeds,
except to where the task came from. What it held before then gets there only if it was raised from elsewhere as well. -/

namespace Patchbay

namespace ContactStore

/-- What a contact holds, if it is there, lies below a value. -/
def AtMost (s : ContactStore) (l : Lattice) (id : ContactId) (u : Json) : Prop :=
  ∀ c, s.contacts.get? id = some c → l.Below c.value u

theorem atMost_congr {s s' : ContactStore} {l : Lattice} {id : ContactId} {u : Json}
    (h : s'.contacts.get? id = s.contacts.get? id) : s'.AtMost l id u ↔ s.AtMost l id u := by
  rw [AtMost, AtMost, h]

theorem isSome_changeOf {s s' : ContactStore} {id : ContactId} {v : Json} {changed : Bool}
    (h : s.update id v = .ok (s', changed)) : (s.changeOf id v).isSome = changed := by
  obtain ⟨c, joined, hc, hj, ⟨he, rfl, -⟩ | ⟨he, rfl, -⟩⟩ := update_cases h
  · simp [changeOf, hc, hj, he]
  · simp [changeOf, hc, hj, he]

theorem Carries.atMost_value {l : Lattice} {carrier : Json → Prop} {s : ContactStore} (hl : l.Coherent carrier)
    (hs : s.Carries l carrier) {id : ContactId} {c : Contact} (hc : s.contacts.get? id = some c) :
    s.AtMost l id c.value := by
  intro d hd
  rw [hc] at hd
  cases hd
  exact hl.below_refl (hs id c hc).2

/-- A value of the carrier, or one that makes no difference, leaves every contact with a value of the carrier. -/
theorem Carries.update {l : Lattice} {carrier : Json → Prop} {s s' : ContactStore} (hl : l.Coherent carrier)
    (hs : s.Carries l carrier) {id : ContactId} {v : Json} {changed : Bool}
    (hv : carrier v ∨ ∀ t, s.update id v ≠ .ok (t, true)) (hu : s.update id v = .ok (s', changed)) :
    s'.Carries l carrier := by
  obtain ⟨c, joined, hc, hj, ⟨-, -, rfl⟩ | ⟨-, rfl, change, -, rfl⟩⟩ := update_cases hu
  · exact hs
  · obtain ⟨rfl, hcv⟩ := hs id c hc
    have hmem : carrier v := hv.resolve_right fun hnot => hnot _ hu
    intro k d hd
    rcases Dict.get?_insert_eq_some.1 hd with ⟨rfl, rfl⟩ | ⟨-, hd⟩
    · exact ⟨rfl, hl.closed hcv hmem hj⟩
    · exact hs k d hd

end ContactStore

namespace Propagation

/-- Those of the tasks that raise their targets as they are written one after the other. -/
def raising (s : ContactStore) : List Task → List Task
  | [] => []
  | t :: rest =>
    let later := raising (s.write (t.target, t.value)) rest
    if (s.changeOf t.target t.value).isSome then t :: later else later

theorem raising_concat (s : ContactStore) (ts : List Task) (t : Task) :
    raising s (ts ++ [t]) = raising s ts ++
      if ((s.writeAll (ts.map fun t => (t.target, t.value))).changeOf t.target t.value).isSome then [t] else [] := by
  induction ts generalizing s with
  | nil => rfl
  | cons u rest ih =>
    rw [List.cons_append, raising, raising, ih]
    split <;> rfl

/-- The tasks that have raised their targets in a walk that began in the store `s`. -/
def Walk.raised (w : Walk) (s : ContactStore) : List Task := raising s w.carriedOut.reverse

/-- A value above what a contact holds and above all that waits to be joined into it. -/
structure Walk.Bound (w : Walk) (l : Lattice) (carrier : Json → Prop) (id : ContactId) (u : Json) : Prop where
  mem : carrier u
  held : w.store.AtMost l id u
  waiting : ∀ t ∈ w.queue, t.target = id → l.Below t.value u

/-- A call under way that began in the store `s`. What a contact holds will get to those whom it feeds, if it is the
source, or a task from elsewhere has raised it, or what it held at first gets there. -/
structure Onward (l : Lattice) (carrier : Json → Prop) (s : ContactStore) (source : ContactId) (w : Walk) : Prop where
  carries : w.store.Carries l carrier
  network : s.SameNetwork w.store
  replayed : w.store = s.writeAll w.written
  cyclic : ∀ id, w.cyclic.contains id = false
  tasks : ∀ t ∈ w.queue, carrier t.value ∧ s.Feeds t.source t.target ∧
    ∀ u, carrier u → w.store.AtMost l t.source u → l.Below t.value u
  sent : ∀ t ∈ w.raised s, s.Feeds t.source t.target
  kept : ∀ id, (∀ t ∈ w.raised s, t.target ≠ id) → w.store.contacts.get? id = s.contacts.get? id
  grown : ∀ id u, carrier u → w.store.AtMost l id u → s.AtMost l id u
  passed : ∀ a b u, s.Feeds a b → w.Bound l carrier b u →
    (a = source ∨ (∃ t ∈ w.raised s, t.target = a ∧ t.source ≠ b) ∨ s.AtMost l a u) → w.store.AtMost l a u

variable {l : Lattice} {carrier : Json → Prop} {s : ContactStore} {source : ContactId} {w w' : Walk} {t : Task}
  {rest : List Task}

theorem Onward.raised_eq (h : Onward l carrier s source w) (hout : w'.carriedOut = t :: w.carriedOut) :
    w'.raised s = w.raised s ++ if (w.store.changeOf t.target t.value).isSome then [t] else [] := by
  rw [Walk.raised, hout, List.reverse_cons, raising_concat, h.replayed]
  rfl

theorem Onward.replayed_write (h : Onward l carrier s source w) (hout : w'.carriedOut = t :: w.carriedOut)
    (hstore : w'.store = w.store.write (t.target, t.value)) : w'.store = s.writeAll w'.written := by
  rw [hstore, Walk.written, hout, List.reverse_cons, List.map_append, ContactStore.writeAll, List.foldl_append]
  exact congrArg (fun s : ContactStore => s.write (t.target, t.value)) h.replayed

/-- A task that makes no difference may go. -/
theorem Onward.settle (hl : l.Coherent carrier) (h : Onward l carrier s source w) (hq : w.queue = t :: rest)
    (hu : w.store.update t.target t.value = .ok (w'.store, false)) (hqueue : w'.queue = rest)
    (hout : w'.carriedOut = t :: w.carriedOut) (hcyclic : w'.cyclic = w.cyclic) : Onward l carrier s source w' := by
  have hraised : w'.raised s = w.raised s := by
    rw [h.raised_eq hout, ContactStore.isSome_changeOf hu, if_neg Bool.false_ne_true, List.append_nil]
  have hreplayed := h.replayed_write hout (ContactStore.write_of_update hu).symm
  obtain ⟨c, joined, hc, hj, ⟨he, -, hstore⟩ | ⟨-, hf, -⟩⟩ := ContactStore.update_cases hu
  · obtain ⟨rfl, hcv⟩ := h.carries _ c hc
    have htask := (h.tasks t (hq ▸ List.mem_cons_self)).1
    refine ⟨hstore ▸ h.carries, hstore ▸ h.network, hreplayed, hcyclic ▸ h.cyclic, fun x hx => ?_, hraised ▸ h.sent,
      hraised ▸ hstore ▸ h.kept, hstore ▸ h.grown, fun a b u hab hb hpass => ?_⟩
    · rw [hstore]
      exact h.tasks x (hq ▸ List.mem_cons_of_mem t (hqueue ▸ hx))
    · rw [hstore]
      rw [hraised] at hpass
      have hheld : w.store.AtMost c.lattice b u := hstore ▸ hb.held
      refine h.passed a b u hab ⟨hb.mem, hheld, fun x hx hxb => ?_⟩ hpass
      rw [hq] at hx
      rcases List.mem_cons.1 hx with rfl | hx
      · exact hl.below_trans htask hcv hb.mem ⟨joined, hj, he⟩ (hheld c (hxb ▸ hc))
      · exact hb.waiting x (hqueue ▸ hx) hxb
  · cases hf

namespace Raises

variable {c : Contact} {joined u : Json} {id : ContactId}

/-- What lies above what a contact holds now lies above what it held. -/
theorem atMost (h : Raises w w' t rest c joined) (hl : c.lattice.Coherent carrier) (hc : carrier c.value)
    (ht : carrier t.value) (hu : carrier u) (hle : w'.store.AtMost c.lattice id u) : w.store.AtMost c.lattice id u := by
  by_cases hid : id = t.target
  · subst hid
    intro d hd
    cases h.held.symm.trans hd
    exact hl.below_trans hc (hl.closed hc ht h.join) hu (hl.below_join_left hc ht h.join) (hle _ h.raised)
  · exact (ContactStore.atMost_congr (h.others id hid)).1 hle

theorem bound (h : Raises w w' t rest c joined) (hl : c.lattice.Coherent carrier) (hc : carrier c.value)
    (ht : carrier t.value) (hb : w'.Bound c.lattice carrier id u) : w.Bound c.lattice carrier id u := by
  refine ⟨hb.mem, h.atMost hl hc ht hb.mem hb.held, fun x hx hxb => ?_⟩
  rw [h.next] at hx
  rcases List.mem_cons.1 hx with rfl | hx
  · have hle : c.lattice.Below joined u := hb.held _ (hxb ▸ h.raised)
    exact hl.below_trans ht (hl.closed hc ht h.join) hb.mem (hl.below_join_right hc ht h.join) hle
  · exact hb.waiting x (h.queue_of_mem_rest hx) hxb

/-- The new value of the target waits for everyone whom it feeds, the task's source apart. -/
theorem below_of_bound (h : Raises w w' t rest c joined) (hid : id ∈ w'.store.downstream t.target)
    (hne : id ≠ t.source) (hb : w'.Bound c.lattice carrier id u) : c.lattice.Below joined u :=
  hb.waiting _ (h.queue_of_mem hid hne) rfl

end Raises

/-- What a task other than the last has raised had been raised before the last. -/
theorem passes_of_append {l : Lattice} {a b : ContactId} {u : Json} (hne : t.target = a → t.source = b)
    (h : a = source ∨ (∃ x ∈ w.raised s ++ [t], x.target = a ∧ x.source ≠ b) ∨ s.AtMost l a u) :
    a = source ∨ (∃ x ∈ w.raised s, x.target = a ∧ x.source ≠ b) ∨ s.AtMost l a u := by
  refine h.imp_right (.imp_left fun ⟨x, hx, hxa, hxb⟩ => ⟨x, ?_, hxa, hxb⟩)
  refine (List.mem_append.1 hx).resolve_right fun hx => ?_
  obtain rfl := List.mem_singleton.1 hx
  exact hxb (hne hxa)

theorem Onward.passed_of_raises {c : Contact} {joined : Json} (h : Onward c.lattice carrier s source w)
    (hstep : Raises w w' t rest c joined) (hl : c.lattice.Coherent carrier)
    (hdown : ∀ {b}, s.Feeds t.target b → b ∈ w'.store.downstream t.target) {a b : ContactId} {u : Json}
    (hab : s.Feeds a b) (hb : w'.Bound c.lattice carrier b u)
    (hpass : a = source ∨ (∃ x ∈ w.raised s ++ [t], x.target = a ∧ x.source ≠ b) ∨ s.AtMost c.lattice a u) :
    w'.store.AtMost c.lattice a u := by
  obtain ⟨htask, -, hsender⟩ := h.tasks t (hstep.next ▸ List.mem_cons_self)
  have hcv := (h.carries _ c hstep.held).2
  have hold := hstep.bound hl hcv htask hb
  by_cases ha : a = t.target
  · subst ha
    intro d hd
    cases hstep.raised.symm.trans hd
    by_cases hbs : b = t.source
    · -- nothing is sent back, but the sender holds what it has sent
      subst hbs
      have hbefore := h.passed t.target t.source u hab hold (passes_of_append (fun _ => rfl) hpass) c hstep.held
      exact hl.join_below hcv htask hb.mem hbefore (hsender u hb.mem hold.held) hstep.join
    · exact hstep.below_of_bound (hdown hab) hbs hb
  · have hbefore := h.passed a b u hab hold (passes_of_append (fun he => absurd he.symm ha) hpass)
    exact (ContactStore.atMost_congr (hstep.others a ha)).2 hbefore

/-- A task that raises its target is joined with what the target held before, and the sender is above the task. -/
theorem Onward.raise (hl : l.Coherent carrier) (hw : s.Wired) (h : Onward l carrier s source w)
    (hq : w.queue = t :: rest) {v : Json} (hu : w.store.update t.target t.value = .ok (w'.store, true))
    (hv : w'.store.value t.target = .ok v)
    (hqueue : w'.queue = rest ++ (tasksFrom w'.store t.target v (t.depth + 1)).filter fun x => x.target ≠ t.source)
    (hout : w'.carriedOut = t :: w.carriedOut) (hcyclic : w'.cyclic = w.cyclic) : Onward l carrier s source w' := by
  obtain ⟨c, hstep⟩ := raises_of_update hq hu hv hqueue
  obtain ⟨rfl, hcv⟩ := h.carries _ c hstep.held
  obtain ⟨htask, hfeeds, -⟩ := h.tasks t (hq ▸ List.mem_cons_self)
  have hraised : w'.raised s = w.raised s ++ [t] := by
    rw [h.raised_eq hout, ContactStore.isSome_changeOf hu, if_pos rfl]
  have hnetwork := h.network.trans (ContactStore.Advances.of_update hu).toSameNetwork
  have hdown {b : ContactId} : b ∈ w'.store.downstream t.target ↔ s.Feeds t.target b := by
    rw [ContactStore.mem_downstream (hnetwork.wired hw), hnetwork.feeds_iff]
  have hgrown {id : ContactId} {u : Json} (hu : carrier u) (hle : w'.store.AtMost c.lattice id u) :=
    hstep.atMost hl hcv htask hu hle
  refine ⟨h.carries.update hl (.inl htask) hu, hnetwork,
    h.replayed_write hout (ContactStore.write_of_update hu).symm, hcyclic ▸ h.cyclic, fun x hx => ?_, fun x hx => ?_,
    fun id hid => ?_, fun id u hu hle => h.grown id u hu (hgrown hu hle), fun a b u hab hb hpass => ?_⟩
  · rcases hstep.mem_queue hx with hx | ⟨b, hbm, rfl⟩
    · obtain ⟨hxv, hxf, hxs⟩ := h.tasks x (hq ▸ List.mem_cons_of_mem t hx)
      exact ⟨hxv, hxf, fun u hu hle => hxs u hu (hgrown hu hle)⟩
    · exact ⟨hl.closed hcv htask hstep.join, hdown.1 hbm, fun u _ hle => hle _ hstep.raised⟩
  · rw [hraised] at hx
    rcases List.mem_append.1 hx with hx | hx
    · exact h.sent x hx
    · exact List.mem_singleton.1 hx ▸ hfeeds
  · rw [hraised] at hid
    have hne : id ≠ t.target := fun he => hid t (List.mem_append_right _ (List.mem_singleton_self t)) he.symm
    rw [hstep.others id hne]
    exact h.kept id fun x hx => hid x (List.mem_append_left _ hx)
  · exact h.passed_of_raises hstep hl hdown.2 hab hb (hraised ▸ hpass)

/-- Nothing has been lost: no task was too deep, none was one too many, and none was refused. -/
def Walk.Whole (w : Walk) : Prop :=
  w.stats.truncated = false ∧ w.stats.cyclesDetected = 0 ∧ w.stats.rejected = 0

theorem Onward.takeUp (hl : l.Coherent carrier) (hw : s.Wired) {threshold : Nat} (hq : w.queue = t :: rest)
    (h : w.Whole → Onward l carrier s source w)
    (hwhole : (takeUp threshold { w with queue := rest } t).Whole) :
    Onward l carrier s source (takeUp threshold { w with queue := rest } t) := by
  obtain ⟨htruncated, hcycles, hrejected⟩ := hwhole
  rw [truncated_takeUp] at htruncated
  rw [takeUp_eq] at hcycles hrejected ⊢
  split at hcycles
  · next hc =>
    rw [if_pos hc] at hrejected
    have hfalse := (h ⟨htruncated, hcycles, hrejected⟩).cyclic t.target
    exact absurd (hc.symm.trans hfalse) Bool.noConfusion
  next hc =>
  split at hcycles
  · cases hcycles
  next hunder =>
  rw [if_neg hc, if_neg hunder] at hrejected ⊢
  set v : Walk := Walk.noteVisit { w with queue := rest } t.target
  rw [(stats_carryOut v t).2.1] at hcycles
  have hout : (carryOut v t).carriedOut = t :: w.carriedOut := (carryOut_writes v t).2
  have hcyclic : (carryOut v t).cyclic = w.cyclic := cyclic_carryOut v t
  rcases carryOut_cases v t with ⟨_, -, -, -, hr⟩ | ⟨s', hu, hstore, hqueue, hr⟩ | ⟨s', x, hu, hx, hstore, hqueue, hr⟩
  · rw [hr] at hrejected
    cases hrejected
  · have hsame : s' = v.store := by
      obtain ⟨_, _, -, -, ⟨-, -, hs⟩ | ⟨-, hf, -⟩⟩ := ContactStore.update_cases hu
      · exact hs
      · cases hf
    have hu' : w.store.update t.target t.value = .ok ((carryOut v t).store, false) := by
      rw [hstore, ← hsame]
      exact hu
    exact (h ⟨htruncated, hcycles, hr ▸ hrejected⟩).settle hl hq hu' hqueue hout hcyclic
  · have hw' := h ⟨htruncated, hcycles, hr ▸ hrejected⟩
    exact hw'.raise hl hw hq (hstore ▸ hu) (hstore ▸ hx) (hstore ▸ hqueue) hout hcyclic

theorem Onward.walk (hl : l.Coherent carrier) (hw : s.Wired) (limits : PropagationLimits)
    (h : Onward l carrier s source w) (hwhole : (walk limits w).Whole) : Onward l carrier s source (walk limits w) := by
  refine walk_keeps (P := fun w => w.Whole → Onward l carrier s source w) ?_ ?_ (fun _ => h) hwhole
  · exact fun v t rest hq hv => Onward.takeUp hl hw hq hv
  · -- a call that ends too deep gives tasks up, which is why nothing is said about it
    rintro v - ⟨hn, -⟩
    cases hn

theorem onward_start (hnull : carrier .null → ∀ a, carrier a → l.Below .null a) (hw : s.Wired)
    (hs : s.Carries l carrier) {current : Json} (hcurrent : s.value source = .ok current) (changed : Bool) :
    Onward l carrier s source (start s source current changed) := by
  obtain ⟨c, hc, rfl⟩ := ContactStore.value_eq_ok.1 hcurrent
  have hcv : carrier c.value := (hs source c hc).2
  have hqueue : ∀ t ∈ (start s source c.value changed).queue,
      t.source = source ∧ s.Feeds source t.target ∧ t.value = c.value := by
    intro t ht
    simp only [start] at ht
    split at ht
    · cases ht
    · obtain ⟨b, hb, rfl⟩ := List.mem_map.1 ht
      exact ⟨rfl, (ContactStore.mem_downstream hw).1 hb, rfl⟩
  refine ⟨hs, .refl s, rfl, fun _ => rfl, fun t ht => ?_, List.forall_mem_nil _, fun _ _ => rfl,
    fun _ _ _ hle => hle, fun a b u hab hb hpass => ?_⟩
  · obtain ⟨hsource, hfeeds, hvalue⟩ := hqueue t ht
    exact ⟨hvalue ▸ hcv, hsource ▸ hfeeds, fun u _ hle => hvalue ▸ hle c (hsource ▸ hc)⟩
  · rcases hpass with rfl | ⟨t, ht, -⟩ | hle
    · intro d hd
      rw [show d = c from Option.some.inj (hd.symm.trans hc)]
      by_cases hn : c.value.isNull = true
      · rw [Json.isNull_iff.1 hn] at hcv ⊢
        exact hnull hcv u hb.mem
      · refine hb.waiting ⟨a, b, c.value, 1⟩ ?_ rfl
        simp only [start, if_neg hn]
        exact List.mem_map.2 ⟨b, (ContactStore.mem_downstream hw).2 hab, rfl⟩
    · cases ht
    · exact hle

/-- Once no task waits, a connection is satisfied if all that its source holds has been passed on. -/
theorem Onward.satisfied_iff (hl : l.Coherent carrier) (hw : s.Wired) (h : Onward l carrier s source w)
    (hq : w.queue = []) {a b : ContactId} (hab : s.Feeds a b) :
    w.store.Satisfied a b ↔ a = source ∨ (∃ t ∈ w.raised s, t.target = a ∧ t.source ≠ b) ∨
      ∃ c d, s.contacts.get? a = some c ∧ w.store.contacts.get? b = some d ∧ l.Below c.value d.value := by
  obtain ⟨hina, hinb⟩ := hw.ends_of_feeds hab
  obtain ⟨c, hc⟩ := Dict.contains_iff.1 hina
  obtain ⟨c', hc', -⟩ := h.network.get? hc
  obtain ⟨d, hd⟩ := Dict.contains_iff.1 ((h.network.contains_eq b).trans hinb)
  obtain ⟨rfl, hdv⟩ := h.carries b d hd
  have hbound : w.Bound d.lattice carrier b d.value :=
    ⟨hdv, h.carries.atMost_value hl hd, fun t ht => absurd (hq ▸ ht) List.not_mem_nil⟩
  constructor
  · rintro ⟨c₁, d₁, hc₁, hd₁, hle⟩
    obtain rfl : d = d₁ := Option.some.inj (hd.symm.trans hd₁)
    have hfinal : w.store.AtMost d.lattice a d.value := fun c₂ hc₂ => Option.some.inj (hc₁.symm.trans hc₂) ▸ hle
    exact .inr (.inr ⟨c, d, hc, hd, h.grown a d.value hdv hfinal c hc⟩)
  · intro hcases
    refine ⟨c', d, hc', hd, h.passed a b d.value hab hbound (hcases.imp_right (.imp_right ?_)) c' hc'⟩
    rintro ⟨c₁, d₁, hc₁, hd₁, hle⟩ c₂ hc₂
    obtain rfl : d = d₁ := Option.some.inj (hd.symm.trans hd₁)
    exact Option.some.inj (hc₁.symm.trans hc₂) ▸ hle

end Propagation

namespace Engine

open Propagation

variable {e e' : Engine} {source : ContactId} {v : Json} {stats : PropagationStats}

/-- The tasks that raise their targets in a call. -/
def raising (e : Engine) (source : ContactId) (v : Json) : List Task :=
  Propagation.raising (e.store.write (source, v)) (e.carried source v)

/-- Two contacts that feed each other, each with something that the other lacks. -/
def exchange : Engine where
  store :=
    { contacts := Dict.ofList
        [("a", { id := "a", lattice := .setUnion, value := .arr [.str "x"] }),
          ("b", { id := "b", lattice := .setUnion, value := .arr [.str "y"] })]
      connections := Dict.ofList
        [("c1", { id := "c1", wire := "w", source := "a", target := "b" }),
          ("c2", { id := "c2", wire := "w", source := "b", target := "a" })]
      outgoing := Dict.ofList [("a", ["c1"]), ("b", ["c2"])]
      lastConnection := 2 }

theorem built_exchange : exchange.store.Built := by
  have ha : ContactStore.Built _ :=
    .register .empty (rfl : ContactStore.empty.register "a" .setUnion (some (.arr [.str "x"])) = .ok _)
  have hb := ha.register (rfl : ContactStore.register _ "b" .setUnion (some (.arr [.str "y"])) = .ok _)
  have hab := hb.connect (rfl : ContactStore.connect _ "w" "a" "b" = .ok (_, "c1"))
  exact hab.connect (rfl : ContactStore.connect _ "w" "b" "a" = .ok (exchange.store, "c2"))

end Engine

end Patchbay
