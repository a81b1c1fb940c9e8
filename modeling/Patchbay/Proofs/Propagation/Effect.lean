import Patchbay.Proofs.Contact.Built
import Patchbay.Proofs.Lattice.Builtin
import Patchbay.Proofs.Propagation.Underway

/-! The effect of a propagation call on a lawful lattice: it raises what its source reaches by the level of the
source, leaves everything else as it was, and nothing remains to be carried. -/

namespace Patchbay

namespace Lattice.Lawful

open Propagation

variable {l : Lattice} {carrier : Json → Prop} (h : l.Lawful carrier)

/-- A value written to the source has spread from one store to the other. -/
structure Spread (s s' : ContactStore) (source : ContactId) (v : Json) : Prop where
  carries : s'.Carries l carrier
  reached : ∀ id, s.Reaches source id →
    h.level s' id = h.level s id ⊔ (h.level s source ⊔ h.element v)
  kept : ∀ id, s'.contacts.get? id = s.contacts.get? id ∨
    s.Reaches source id ∧ h.level s id < h.level s' id ∧
      ∃ c c', s.contacts.get? id = some c ∧ s'.contacts.get? id = some c' ∧ c'.version = c.version + 1
  satisfied : ∀ a b, s.Feeds a b → h.level s' a ≤ h.level s' b

variable {h}

theorem Spread.level_of_not_reaches {s s' : ContactStore} {source : ContactId} {v : Json}
    (hs : h.Spread s s' source v) {id : ContactId} (hr : ¬s.Reaches source id) :
    s'.contacts.get? id = s.contacts.get? id :=
  (hs.kept id).resolve_right fun hk => hr hk.1

/-- The source is raised first, and the walk goes on from there. -/
theorem spread_of_underway {s s₀ : ContactStore} {source : ContactId} {v : Json} {changed : Bool} {w : Walk}
    (hc : s.Carries l carrier) (hv : carrier v) (hup : s.update source v = .ok (s₀, changed))
    (hs : ∀ a b, s₀.Feeds a b → a ≠ source → h.level s₀ a ≤ h.level s₀ b)
    (hu : h.Underway s₀ source w) (hq : w.queue = []) : h.Spread s w.store source v := by
  have hadv := ContactStore.Advances.of_update hup
  have hlevel := h.level_update hc hv hup
  have hsource : h.level s₀ source = h.level s source ⊔ h.element v := by rw [hlevel, if_pos rfl]
  have hkept (id) : s₀.contacts.get? id = s.contacts.get? id ∨
      id = source ∧ h.level s id < h.level s₀ id ∧
        ∃ c c', s.contacts.get? id = some c ∧ s₀.contacts.get? id = some c' ∧
          c'.version = c.version + 1 := by
    obtain ⟨-, ⟨-, rfl, -⟩ | ⟨-, hnle, c, c', hcs, hcontacts, hversion, -⟩⟩ := h.update_level hc hv hup
    · exact .inl rfl
    · by_cases hid : id = source
      · subst hid
        refine .inr ⟨rfl, ?_, c, c', hcs, by rw [hcontacts, Dict.get?_insert_self], hversion⟩
        rw [hsource]
        exact left_lt_sup.2 hnle
      · exact .inl (by rw [hcontacts, Dict.get?_insert_of_ne _ hid])
  refine ⟨hu.carries, fun id hr => ?_, fun id => ?_, fun a b hab => ?_⟩
  · rw [hu.level_of_reaches hq (hadv.reaches_iff.2 hr), hsource, hlevel]
    split
    · next hid => rw [hid, sup_idem, ← sup_assoc, sup_idem]
    · rfl
  · rcases hu.contacts id with he | ⟨hr, hbelow, hraised, c, c', hcs, hcw, hversion⟩
    · rcases hkept id with hk | ⟨rfl, hlt, c, c', hcs, hcs₀, hversion⟩
      · exact .inl (he.trans hk)
      · exact .inr ⟨.refl, (h.level_congr he).symm ▸ hlt, c, c', hcs, he.trans hcs₀, hversion⟩
    · -- the walk does not come back to its source, for that is not below itself
      have hid : id ≠ source := fun he => hbelow (he ▸ le_rfl)
      have hk : s₀.contacts.get? id = s.contacts.get? id :=
        (hkept id).resolve_right fun hk => hid hk.1
      refine .inr ⟨hadv.reaches_iff.1 hr, ?_, c, c', hk ▸ hcs, hcw, hversion⟩
      rw [hraised, ← h.level_congr hk]
      exact left_lt_sup.2 hbelow
  · exact hu.level_le_of_feeds hs hq (hadv.feeds_iff.2 hab)

theorem spread_propagate {e e' : Engine} {source : ContactId} {v : Json} {stats : PropagationStats}
    (hw : e.store.Wired) (hc : e.store.Carries l carrier) (ht : 1 ≤ e.limits.cycleThreshold)
    (hs : ∀ a b, e.store.Feeds a b → a ≠ source → h.level e.store a ≤ h.level e.store b) (hv : carrier v)
    (hp : e.propagate source v = .ok (e', stats)) (hn : stats.truncated = false) :
    h.Spread e.store e'.store source v ∧ stats.rejected = 0 := by
  obtain ⟨s₀, changed, current, hup, hcurrent, rfl, rfl⟩ := Engine.propagate_cases hp
  have hadv := ContactStore.Advances.of_update hup
  have hs₀ (a b) (hab : s₀.Feeds a b) (ha : a ≠ source) : h.level s₀ a ≤ h.level s₀ b := by
    rw [h.level_update hc hv hup, if_neg ha]
    exact (hs a b (hadv.feeds_iff.1 hab) ha).trans (h.level_le_update hc hv hup b)
  have hu : h.Underway s₀ source _ := (underway_start (hadv.wired hw) (h.update_level hc hv hup).1 hs₀
    hcurrent changed).walk ht (hadv.wired hw) hs₀ hn
  exact ⟨spread_of_underway hc hv hup hs₀ hu (queue_walk e.limits _), hu.rejected⟩

end Lattice.Lawful

namespace Engine

/-- A call that is not cut short raises every contact that its source reaches by what the source then holds, each in
one step of its version. It leaves the other contacts and all connections as they were, and every active connection
satisfied. -/
theorem propagate_effect {l : Lattice} {carrier : Json → Prop} (h : l.Lawful carrier) {e e' : Engine}
    {source : ContactId} {v : Json} {stats : PropagationStats} (hb : e.store.Built)
    (hc : e.store.Carries l carrier) (ht : 1 ≤ e.limits.cycleThreshold)
    (hs : ∀ a b, e.store.Feeds a b → a ≠ source → e.store.Satisfied a b) (hv : carrier v)
    (hp : e.propagate source v = .ok (e', stats)) (hn : stats.truncated = false) :
    (∃ old new, e.store.value source = .ok old ∧ l.join old v = .ok new ∧
      ∀ id c, e.store.contacts.get? id = some c → e.store.Reaches source id →
        ∃ c' joined, e'.store.contacts.get? id = some c' ∧ l.join c.value new = .ok joined ∧
          l.equivalent c'.value joined = true) ∧
      (∀ id, ¬e.store.Reaches source id → e'.store.contacts.get? id = e.store.contacts.get? id) ∧
      (∀ id c, e.store.contacts.get? id = some c → ∃ c', e'.store.contacts.get? id = some c' ∧
        c.version ≤ c'.version ∧ c'.version ≤ c.version + 1) ∧
      e'.store.connections = e.store.connections ∧
      (∀ a b, e'.store.Feeds a b → e'.store.Satisfied a b) ∧ stats.rejected = 0 := by
  have hw := hb.wired
  have hadv := advances_propagate hp
  have hlevel (a b) (hab : e.store.Feeds a b) (ha : a ≠ source) : h.level e.store a ≤ h.level e.store b := by
    obtain ⟨hina, hinb⟩ := hw.ends_of_feeds hab
    exact (h.satisfied_iff hc hina hinb).1 (hs a b hab ha)
  obtain ⟨hspread, hrejected⟩ := h.spread_propagate hw hc ht hlevel hv hp hn
  refine ⟨?_, fun id => hspread.level_of_not_reaches, fun id c hcs => ?_, hadv.connections_eq,
    fun a b hab => ?_, hrejected⟩
  · -- the levels are read back as joins of values, which are equivalent where the levels are equal
    obtain ⟨_, _, _, hup, -⟩ := propagate_cases hp
    obtain ⟨c₀, new, hc₀, hnew, -⟩ := ContactStore.update_cases hup
    obtain ⟨rfl, hcv⟩ := hc source c₀ hc₀
    refine ⟨c₀.value, new, ContactStore.value_eq_ok.2 ⟨c₀, hc₀, rfl⟩, hnew, fun id c hcs hr => ?_⟩
    obtain ⟨hmem, he⟩ := h.element_join hcv hv hnew
    obtain ⟨c', hcs', -⟩ := hadv.get? hcs
    obtain ⟨joined, hj, hjm⟩ := h.total (hc id c hcs).2 hmem
    refine ⟨c', joined, hcs', hj, (h.element_eq_iff (hspread.carries id c' hcs').2 hjm).1 ?_⟩
    rw [(h.element_join (hc id c hcs).2 hmem hj).2, he, ← h.level_of_get? hcs', ← h.level_of_get? hcs,
      ← h.level_of_get? hc₀]
    exact hspread.reached id hr
  · rcases hspread.kept id with he | ⟨-, -, d, d', hd, hd', hversion⟩
    · exact ⟨c, he.trans hcs, Nat.le_refl _, Nat.le_succ _⟩
    · rw [hcs] at hd
      cases hd
      exact ⟨d', hd', by omega, by omega⟩
  · obtain ⟨hina, hinb⟩ := (hadv.wired hw).ends_of_feeds hab
    exact (h.satisfied_iff hspread.carries hina hinb).2 (hspread.satisfied a b (hadv.feeds_iff.1 hab))

def loop : Engine where
  store :=
    { contacts := Dict.ofList
        [("a", { id := "a", lattice := .disjunction, value := .null }),
          ("b", { id := "b", lattice := .disjunction, value := .null })]
      connections := Dict.ofList
        [("c1", { id := "c1", wire := "w", source := "a", target := "b" }),
          ("c2", { id := "c2", wire := "w", source := "b", target := "a" })]
      outgoing := Dict.ofList [("a", ["c1"]), ("b", ["c2"])]
      lastConnection := 2 }

theorem built_loop : loop.store.Built := by
  have ha : ContactStore.Built _ :=
    .register .empty (rfl : ContactStore.empty.register "a" .disjunction none = .ok _)
  have hb := ha.register (rfl : ContactStore.register _ "b" .disjunction none = .ok _)
  have hab := hb.connect (rfl : ContactStore.connect _ "w" "a" "b" = .ok (_, "c1"))
  exact hab.connect (rfl : ContactStore.connect _ "w" "b" "a" = .ok (loop.store, "c2"))

theorem carries_loop : loop.store.Carries .disjunction Lattice.Flag := by
  intro id c hc
  rw [Dict.get?_eq_some_iff] at hc
  change _ ∈ [_, _] at hc
  simp only [List.mem_cons, Prod.mk.injEq, List.not_mem_nil, or_false] at hc
  rcases hc with ⟨-, rfl⟩ | ⟨-, rfl⟩ <;> exact ⟨rfl, .inl rfl⟩

theorem satisfied_loop {a b : ContactId} (hab : loop.store.Feeds a b) : loop.store.Satisfied a b := by
  obtain ⟨id, x, hx, -, rfl, rfl⟩ := hab
  rw [Dict.get?_eq_some_iff] at hx
  change _ ∈ [_, _] at hx
  simp only [List.mem_cons, Prod.mk.injEq, List.not_mem_nil, or_false] at hx
  rcases hx with ⟨-, rfl⟩ | ⟨-, rfl⟩ <;> exact ⟨_, _, rfl, rfl, _, rfl, rfl⟩

theorem propagate_effect_loop :
    ∃ e stats, loop.propagate "a" (.bool true) = .ok (e, stats) ∧ stats.truncated = false ∧
      (∀ a b, e.store.Feeds a b → e.store.Satisfied a b) ∧ stats.rejected = 0 := by
  have hrun : (loop.propagate "a" (.bool true)).map (fun (_, stats) => stats.truncated) = .ok false := by cbv
  obtain ⟨⟨e, stats⟩, hp, hn⟩ := ok_of_map hrun
  obtain ⟨-, -, -, -, hs, hr⟩ := propagate_effect Lattice.disjunction_lawful built_loop carries_loop
    (by decide) (fun _ _ hab _ => satisfied_loop hab) (.inr ⟨true, rfl⟩) hp hn
  exact ⟨e, stats, hp, hn, hs, hr⟩

end Engine

end Patchbay
