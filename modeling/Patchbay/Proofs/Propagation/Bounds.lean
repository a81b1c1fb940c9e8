import Patchbay.Proofs.Contact.Built
import Patchbay.Proofs.Propagation.History
import Mathlib.Algebra.Order.BigOperators.Group.Finset
import Mathlib.Data.Set.Card
import Mathlib.Logic.Relation

/-! How much a propagation call may do, whatever its lattices are. Each contact that the source leads to is carried to
no more often than the threshold allows, and only what is carried brings new tasks, so that the call comes to its end. -/

namespace Patchbay

theorem length_le_ncard {α : Type} {l : List α} {S : Set α} (hn : l.Nodup) (hS : S.Finite) (h : ∀ x ∈ l, x ∈ S) :
    l.length ≤ S.ncard := by
  classical
  rw [← List.toFinset_card_of_nodup hn, ← Set.ncard_coe_finset]
  exact Set.ncard_le_ncard (fun x hx => h x (List.mem_toFinset.1 hx)) hS

/-- A list in which nothing occurs more often than `n` times is no longer than `n` times what it is made from. -/
theorem length_le_mul_ncard {α : Type} [DecidableEq α] {l : List α} {S : Set α} {n : Nat} (hS : S.Finite)
    (h : ∀ x ∈ l, x ∈ S) (hn : ∀ x, l.count x ≤ n) : l.length ≤ n * S.ncard := by
  have hcard : l.toFinset.card ≤ S.ncard := by
    rw [← Set.ncard_coe_finset]
    exact Set.ncard_le_ncard (fun x hx => h x (List.mem_toFinset.1 hx)) hS
  calc l.length = ∑ x ∈ l.toFinset, l.count x := (List.sum_toFinset_count_eq_length l).symm
    _ ≤ ∑ _x ∈ l.toFinset, n := Finset.sum_le_sum fun x _ => hn x
    _ = n * l.toFinset.card := by rw [Finset.sum_const_nat fun _ _ => rfl, Nat.mul_comm]
    _ ≤ n * S.ncard := Nat.mul_le_mul_left n hcard

namespace ContactStore

/-- The contacts that connections lead to from a contact, over one connection or more. -/
def beyond (s : ContactStore) (source : ContactId) : Set ContactId := {id | Relation.TransGen s.Feeds source id}

theorem Wired.finite_beyond {s : ContactStore} (h : s.Wired) (source : ContactId) : (s.beyond source).Finite := by
  refine (List.finite_toSet s.contacts.keys).subset fun id hid => ?_
  obtain ⟨a, -, hab⟩ := Relation.TransGen.tail'_iff.1 hid
  exact Dict.mem_keys.2 (h.ends_of_feeds hab).2

theorem SameNetwork.beyond_eq {s s' : ContactStore} (h : s.SameNetwork s') (source : ContactId) :
    s'.beyond source = s.beyond source := by
  have hf : s'.Feeds = s.Feeds := funext₂ fun _ _ => propext h.feeds_iff
  rw [beyond, beyond, hf]

theorem nodup_downstream (s : ContactStore) (id : ContactId) : (s.downstream id).Nodup := by
  refine foldl_keeps (P := List.Nodup) (fun out conn _ hout => ?_) .nil
  unfold listTarget
  split
  · split
    · next c _ hnew =>
      have hnot : c.target ∉ out := by simp_all
      exact List.nodup_append.2 ⟨hout, List.nodup_singleton _, fun a ha b hb hab =>
        hnot (List.mem_singleton.1 hb ▸ hab ▸ ha)⟩
    · exact hout
  · exact hout

end ContactStore

namespace Propagation

/-! ## The loop, pass by pass -/

/-- A call under way comes to its end after so many passes. Each takes the next task up, or finds it too deep and gives
up all that wait. -/
inductive Passes (limits : PropagationLimits) : Nat → Walk → Walk → Prop
  | done {w} : w.queue = [] → Passes limits 0 w w
  | cut {w t rest} : w.queue = t :: rest → limits.maxDepth < t.depth → Passes limits 1 w w.cut
  | pass {n w w' t rest} : w.queue = t :: rest → t.depth ≤ limits.maxDepth →
      Passes limits n (takeUp limits.cycleThreshold { w with queue := rest } t) w' → Passes limits (n + 1) w w'

/-- The walk with one more visit noted. -/
def Walk.noteVisit (w : Walk) (id : ContactId) : Walk :=
  { w with visits := w.visits.insert id (w.visits.getD id 0 + 1) }

theorem getD_noteVisit (w : Walk) (id x : ContactId) :
    (w.noteVisit id).visits.getD x 0 = w.visits.getD x 0 + if x = id then 1 else 0 := by
  rw [Walk.noteVisit, Dict.getD, Dict.get?_insert]
  split
  · next hx => rw [hx, Option.getD_some]
  · rfl

theorem takeUp_eq (threshold : Nat) (w : Walk) (t : Task) :
    takeUp threshold w t =
      if w.cyclic.contains t.target then w
      else if threshold < w.visits.getD t.target 0 + 1 then
        { w.noteVisit t.target with
          cyclic := w.cyclic.add t.target
          stats := { w.stats with cyclesDetected := w.stats.cyclesDetected + 1 } }
      else carryOut (w.noteVisit t.target) t := rfl

theorem stats_carryOut (w : Walk) (t : Task) :
    (carryOut w t).stats.tasksProcessed = w.stats.tasksProcessed + 1 ∧
      (carryOut w t).stats.cyclesDetected = w.stats.cyclesDetected ∧
      (carryOut w t).stats.propagationDepth = max w.stats.propagationDepth t.depth ∧
      (carryOut w t).stats.valuesChanged + (carryOut w t).stats.rejected ≤
        w.stats.valuesChanged + w.stats.rejected + 1 := by
  simp only [carryOut]
  split
  · exact ⟨rfl, rfl, rfl, Nat.le_refl _⟩
  · exact ⟨rfl, rfl, rfl, Nat.le_succ _⟩
  · exact ⟨rfl, rfl, rfl, Nat.le_of_eq (Nat.add_right_comm ..)⟩

/-- How often a task to a contact has been carried out. -/
def Walk.timesTo (w : Walk) (id : ContactId) : Nat := (w.carriedOut.map (·.target)).count id

/-- A call under way that began at `source` in the store `s` has done no more than its limits allow. -/
structure Within (limits : PropagationLimits) (s : ContactStore) (source : ContactId) (w : Walk) : Prop where
  network : s.SameNetwork w.store
  waiting : ∀ t ∈ w.queue, t.target ∈ s.beyond source
  carried : ∀ id ∈ w.carriedOut.map (·.target), id ∈ s.beyond source
  visits : ∀ id, w.timesTo id ≤ w.visits.getD id 0
  allowed : ∀ id, w.timesTo id ≤ limits.cycleThreshold
  processed : w.stats.tasksProcessed = w.carriedOut.length
  cyclic : ∀ id ∈ w.cyclic.keys, id ∈ s.beyond source
  cycles : w.stats.cyclesDetected = w.cyclic.keys.length
  outcomes : w.stats.valuesChanged + w.stats.rejected ≤ w.stats.tasksProcessed + 1
  depth : w.stats.propagationDepth ≤ limits.maxDepth

variable {limits : PropagationLimits} {s : ContactStore} {source : ContactId} {w : Walk} {t : Task} {rest : List Task}

theorem beyond_of_mem_downstream {s' : ContactStore} (hw : s.Wired) (hn : s.SameNetwork s') {a b : ContactId}
    (ha : a = source ∨ a ∈ s.beyond source) (hb : b ∈ s'.downstream a) : b ∈ s.beyond source := by
  have hab : s.Feeds a b := hn.feeds_iff.1 ((ContactStore.mem_downstream (hn.wired hw)).1 hb)
  rcases ha with rfl | ha
  · exact .single hab
  · exact .tail ha hab

/-- What a task brings is on its way to contacts that the source leads to, and to each of them once. -/
theorem Within.queue_carryOut (hs : s.Wired) (h : Within limits s source w) (ht : t.target ∈ s.beyond source) :
    (∀ x ∈ (carryOut w t).queue, x.target ∈ s.beyond source) ∧
      (carryOut w t).queue.length ≤ w.queue.length + (s.beyond source).ncard := by
  rcases carryOut_cases w t with ⟨_, -, -, hq, -⟩ | ⟨_, -, -, hq, -⟩ | ⟨s', v, hu, -, -, hq, -⟩
  · exact ⟨hq ▸ h.waiting, hq ▸ Nat.le_add_right ..⟩
  · exact ⟨hq ▸ h.waiting, hq ▸ Nat.le_add_right ..⟩
  · have hn := h.network.trans (ContactStore.Advances.of_update hu).toSameNetwork
    have hdown {b : ContactId} (hb : b ∈ s'.downstream t.target) : b ∈ s.beyond source :=
      beyond_of_mem_downstream hs hn (.inr ht) hb
    rw [hq, List.length_append]
    constructor
    · intro x hx
      rcases List.mem_append.1 hx with hx | hx
      · exact h.waiting x hx
      · obtain ⟨b, hb, rfl⟩ := List.mem_map.1 (List.mem_of_mem_filter hx)
        exact hdown hb
    · refine Nat.add_le_add_left ((List.length_filter_le ..).trans ?_) _
      rw [tasksFrom, List.length_map]
      exact length_le_ncard (s'.nodup_downstream _) (hs.finite_beyond source) fun b hb => hdown hb

/-- A task that is carried out uses up a visit that has been noted. -/
theorem Within.carryOut (hs : s.Wired) (h : Within limits s source w) (ht : t.target ∈ s.beyond source)
    (hdepth : t.depth ≤ limits.maxDepth) (hnoted : w.timesTo t.target < w.visits.getD t.target 0)
    (hseen : w.visits.getD t.target 0 ≤ limits.cycleThreshold) : Within limits s source (carryOut w t) := by
  have hout : (Propagation.carryOut w t).carriedOut = t :: w.carriedOut := (carryOut_writes w t).2
  obtain ⟨htasks, hcycles, hdeep, houtcomes⟩ := stats_carryOut w t
  have htimes (id : ContactId) : (Propagation.carryOut w t).timesTo id =
      w.timesTo id + if id = t.target then 1 else 0 := by
    rw [Walk.timesTo, hout, List.map_cons, List.count_cons]
    simp only [beq_iff_eq, eq_comm (a := id)]
    rfl
  refine {
    network := h.network.trans (advances_carryOut w t).toSameNetwork
    waiting := (h.queue_carryOut hs ht).1
    carried := by rw [hout]; exact List.forall_mem_cons.2 ⟨ht, h.carried⟩
    visits := fun id => ?_
    allowed := fun id => ?_
    processed := by rw [htasks, hout, List.length_cons, ← h.processed]
    cyclic := by rw [cyclic_carryOut]; exact h.cyclic
    cycles := by rw [hcycles, cyclic_carryOut]; exact h.cycles
    outcomes := ?_
    depth := by rw [hdeep]; exact Nat.max_le.2 ⟨h.depth, hdepth⟩ }
  · rw [htimes, visits_carryOut]
    split
    · next hid => exact hid ▸ hnoted
    · exact h.visits id
  · rw [htimes]
    split
    · next hid => exact hid ▸ Nat.lt_of_lt_of_le hnoted hseen
    · exact h.allowed id
  · have hbefore := h.outcomes
    omega

/-- A pass keeps a call within its limits, and lets the queue grow only with a task that is carried out. -/
theorem Within.takeUp (hs : s.Wired) (h : Within limits s source w) (hq : w.queue = t :: rest)
    (hdepth : t.depth ≤ limits.maxDepth) :
    Within limits s source (takeUp limits.cycleThreshold { w with queue := rest } t) ∧
      (takeUp limits.cycleThreshold { w with queue := rest } t).queue.length + 1 +
          (s.beyond source).ncard * w.stats.tasksProcessed ≤
        w.queue.length + (s.beyond source).ncard *
          (takeUp limits.cycleThreshold { w with queue := rest } t).stats.tasksProcessed := by
  have ht : t.target ∈ s.beyond source := h.waiting t (hq ▸ List.mem_cons_self)
  have hrest : Within limits s source { w with queue := rest } :=
    { h with waiting := fun x hx => h.waiting x (hq ▸ List.mem_cons_of_mem t hx) }
  set v : Walk := { w with queue := rest } with hv
  have hlength : w.queue.length = v.queue.length + 1 := by rw [hq, List.length_cons]
  have htasks : v.stats.tasksProcessed = w.stats.tasksProcessed := rfl
  -- noting a visit takes nothing away from those that the tasks carried out have had
  have hnoted : Within limits s source (v.noteVisit t.target) :=
    { hrest with visits := fun id => (hrest.visits id).trans (getD_noteVisit .. ▸ Nat.le_add_right ..) }
  rw [takeUp_eq]
  split
  · exact ⟨hrest, by rw [hlength, htasks]⟩
  next hcyclic =>
  have hcyclic : v.cyclic.contains t.target = false := Bool.eq_false_iff.2 hcyclic
  split
  · refine ⟨{ hnoted with cyclic := fun id hid => ?_, cycles := ?_ }, by rw [hlength]; rfl⟩
    · rcases (Dict.mem_keys_insert ..).1 hid with rfl | hid
      · exact ht
      · exact hrest.cyclic id hid
    · rw [Names.add, Dict.length_keys_insert () hcyclic, ← hrest.cycles]
  · next hseen =>
    have hown := getD_noteVisit v t.target t.target
    rw [if_pos rfl] at hown
    refine ⟨hnoted.carryOut hs ht hdepth ?_ ?_, ?_⟩
    · exact Nat.lt_of_le_of_lt (hrest.visits t.target) (hown ▸ Nat.lt_succ_self _)
    · exact hown ▸ Nat.le_of_not_lt hseen
    · have hsame : (v.noteVisit t.target).queue = v.queue := rfl
      have hgrow := hsame ▸ (hnoted.queue_carryOut hs ht).2
      have hone : (Propagation.carryOut (v.noteVisit t.target) t).stats.tasksProcessed = w.stats.tasksProcessed + 1 :=
        (stats_carryOut ..).1
      rw [hone, Nat.mul_add, Nat.mul_one]
      omega

/-- The loop comes to its end, after no more passes than the tasks that wait and those that are brought. -/
theorem Within.passes (hs : s.Wired) (h : Within limits s source w) :
    Within limits s source (walk limits w) ∧ ∃ n, Passes limits n w (walk limits w) ∧
      n + (s.beyond source).ncard * w.stats.tasksProcessed ≤
        w.queue.length + (s.beyond source).ncard * (walk limits w).stats.tasksProcessed := by
  induction w using walk.induct limits with
  | case1 w hq =>
    rw [walk_of_nil hq]
    exact ⟨h, 0, .done hq, Nat.add_le_add_right (Nat.zero_le _) _⟩
  | case2 w t rest hq hd =>
    rw [walk_of_cons hq, if_pos hd]
    exact ⟨{ h with waiting := List.forall_mem_nil _ }, 1, .cut hq hd, Nat.add_le_add_right (hq ▸ Nat.le_add_left ..) _⟩
  | case3 w t rest hq hd ih =>
    rw [walk_of_cons hq, if_neg hd]
    obtain ⟨hnext, hgrow⟩ := h.takeUp hs hq (Nat.le_of_not_lt hd)
    obtain ⟨hend, n, hpasses, hn⟩ := ih hnext
    exact ⟨hend, n + 1, .pass hq (Nat.le_of_not_lt hd) hpasses, by omega⟩

theorem within_start (hs : s.Wired) (limits : PropagationLimits) (current : Json) (changed : Bool) :
    Within limits s source (start s source current changed) ∧
      (start s source current changed).queue.length ≤ (s.beyond source).ncard := by
  have hdown : ∀ b ∈ s.downstream source, b ∈ s.beyond source :=
    fun b hb => beyond_of_mem_downstream hs (.refl s) (.inl rfl) hb
  refine ⟨{
    network := .refl s
    waiting := fun t ht => ?_
    carried := nofun
    visits := fun id => Nat.zero_le _
    allowed := fun id => Nat.zero_le _
    processed := rfl
    cyclic := nofun
    cycles := rfl
    outcomes := ?_
    depth := Nat.zero_le _ }, ?_⟩
  · simp only [start] at ht
    split at ht
    · cases ht
    · obtain ⟨b, hb, rfl⟩ := List.mem_map.1 ht
      exact hdown b hb
  · simp only [start]
    split
    · exact Nat.le_refl _
    · exact Nat.zero_le _
  · simp only [start]
    split
    · exact Nat.zero_le _
    · rw [tasksFrom, List.length_map]
      exact length_le_ncard (s.nodup_downstream source) (hs.finite_beyond source) hdown

/-- What a call within its limits has done is bounded by what the source leads to. -/
theorem Within.stats_le (hs : s.Wired) (h : Within limits s source w) :
    w.stats.tasksProcessed ≤ limits.cycleThreshold * (s.beyond source).ncard ∧
      w.stats.cyclesDetected ≤ (s.beyond source).ncard := by
  constructor
  · rw [h.processed, ← List.length_map (f := (·.target))]
    exact length_le_mul_ncard (hs.finite_beyond source) h.carried h.allowed
  · rw [h.cycles]
    exact length_le_ncard w.cyclic.nodup_keys (hs.finite_beyond source) h.cyclic

end Propagation

namespace Engine

/-- Whatever its lattices are and however its contacts are connected, a call is refused by its source, or it comes to
its end after so many passes. No contact beyond the source is carried to more often than the threshold allows, what changes
or refuses a value is the source or the target of a task, no task is deeper than the limit, and no contact is found
cyclic twice. -/
theorem propagate_bounded {e : Engine} (hb : e.store.Built) (source : ContactId) (v : Json) :
    (∃ cause, e.store.update source v = .error cause ∧ e.propagate source v = .error cause) ∨
    ∃ e' stats, e.propagate source v = .ok (e', stats) ∧
      (∃ store changed current n w, e.store.update source v = .ok (store, changed) ∧
        store.value source = .ok current ∧
        Propagation.Passes e.limits n (Propagation.start store source current changed) w ∧
        e'.store = w.store ∧ stats = w.stats ∧
        n ≤ (e.store.beyond source).ncard + (e.store.beyond source).ncard * stats.tasksProcessed) ∧
      stats.tasksProcessed ≤ e.limits.cycleThreshold * (e.store.beyond source).ncard ∧
      stats.valuesChanged + stats.rejected ≤ stats.tasksProcessed + 1 ∧
      stats.propagationDepth ≤ e.limits.maxDepth ∧
      stats.cyclesDetected ≤ (e.store.beyond source).ncard := by
  cases hu : e.store.update source v with
  | error cause =>
    refine .inl ⟨cause, rfl, ?_⟩
    rw [propagate, hu]
    rfl
  | ok p =>
    obtain ⟨⟨e', stats⟩, hp⟩ := exists_propagate hu
    obtain ⟨store, changed, current, hu', hcurrent, rfl, rfl⟩ := propagate_cases hp
    have hadv := ContactStore.Advances.of_update hu'
    have hs : store.Wired := hadv.wired hb.wired
    obtain ⟨hstart, hqueue⟩ := Propagation.within_start hs e.limits current changed
    obtain ⟨hend, n, hpasses, hn⟩ := hstart.passes hs
    obtain ⟨hprocessed, hcycles⟩ := hend.stats_le hs
    rw [hadv.beyond_eq] at hqueue hn hprocessed hcycles
    refine .inr ⟨_, _, hp, ⟨store, changed, current, n, _, hu ▸ hu', hcurrent, hpasses, rfl, rfl, ?_⟩, hprocessed,
      hend.outcomes, hend.depth, hcycles⟩
    exact ((Nat.le_add_right ..).trans hn).trans (Nat.add_le_add_right hqueue _)

/-- Three contacts in a ring, whose joins never leave a value as it was. -/
def ring : Engine where
  store :=
    { contacts := Dict.ofList
        [("a", { id := "a", lattice := .append, value := .null }),
          ("b", { id := "b", lattice := .append, value := .null }),
          ("c", { id := "c", lattice := .append, value := .null })]
      connections := Dict.ofList
        [("c1", { id := "c1", wire := "w", source := "a", target := "b" }),
          ("c2", { id := "c2", wire := "w", source := "b", target := "c" }),
          ("c3", { id := "c3", wire := "w", source := "c", target := "a" })]
      outgoing := Dict.ofList [("a", ["c1"]), ("b", ["c2"]), ("c", ["c3"])]
      lastConnection := 3 }
  limits := { maxDepth := 1000, cycleThreshold := 5 }

theorem built_ring : ring.store.Built := by
  have ha : ContactStore.Built _ :=
    .register .empty (rfl : ContactStore.empty.register "a" .append none = .ok _)
  have hb := ha.register (rfl : ContactStore.register _ "b" .append none = .ok _)
  have hc := hb.register (rfl : ContactStore.register _ "c" .append none = .ok _)
  have hab := hc.connect (rfl : ContactStore.connect _ "w" "a" "b" = .ok (_, "c1"))
  have hbc := hab.connect (rfl : ContactStore.connect _ "w" "b" "c" = .ok (_, "c2"))
  exact hbc.connect (rfl : ContactStore.connect _ "w" "c" "a" = .ok (ring.store, "c3"))

theorem propagate_bounded_ring :
    ∃ e stats, ring.propagate "a" (.arr [.str "x"]) = .ok (e, stats) ∧ stats.cyclesDetected = 1 ∧
      stats.tasksProcessed = 15 ∧ 15 ≤ 5 * (ring.store.beyond "a").ncard ∧ 1 ≤ (ring.store.beyond "a").ncard := by
  have hrun : (ring.propagate "a" (.arr [.str "x"])).map
      (fun (_, stats) => (stats.cyclesDetected, stats.tasksProcessed)) = .ok (1, 15) := by cbv
  obtain ⟨⟨e, stats⟩, hp, hstats⟩ := ok_of_map hrun
  obtain ⟨hcycles, htasks⟩ := Prod.mk.inj hstats
  rcases propagate_bounded built_ring "a" (.arr [.str "x"]) with
    ⟨cause, -, hc⟩ | ⟨e', stats', hp', -, hprocessed, -, -, hdetected⟩
  · rw [hc] at hp
    cases hp
  · rw [hp'] at hp
    cases hp
    exact ⟨e, stats, hp', hcycles, htasks, htasks ▸ hprocessed, hcycles ▸ hdetected⟩

end Engine

end Patchbay
