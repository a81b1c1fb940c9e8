import Patchbay.Proofs.Gadget.Deliver
import Patchbay.Proofs.Propagation.Effect

/-! Engines at rest on a lawful lattice. Values delivered to one leave it at rest, above each of them, and below
whatever is closed and above each of them. -/

namespace Patchbay.Lattice.Lawful

variable {l : Lattice} {carrier : Json → Prop} (h : l.Lawful carrier)

/-- Every active connection is satisfied, and a contact that does not hold null is above the bottom. -/
structure AtRest (e : Engine) : Prop where
  wired : e.store.Wired
  carries : e.store.Carries l carrier
  threshold : 1 ≤ e.limits.cycleThreshold
  satisfied : ∀ a b, e.store.Feeds a b → h.level e.store a ≤ h.level e.store b
  positive : ∀ id c, e.store.contacts.get? id = some c → c.value = .null ∨ h.level e.store id ≠ ⊥

/-- The values have been delivered, and nothing but what follows from them. -/
structure Delivered (e : Engine) (values : List (ContactId × Json)) (e' : Engine) : Prop where
  atRest : h.AtRest e'
  grows : ∀ id, h.level e.store id ≤ h.level e'.store id
  reached : ∀ p ∈ values, e.store.contains p.1 = true → h.element p.2 ≤ h.level e'.store p.1
  bounded : ∀ F : ContactId → h.Element, (∀ a b, e.store.Feeds a b → F a ≤ F b) →
    (∀ id, h.level e.store id ≤ F id) →
    (∀ p ∈ values, e.store.contains p.1 = true → h.element p.2 ≤ F p.1) → ∀ id, h.level e'.store id ≤ F id

include h in
theorem propagate_isOk {e : Engine} (hc : e.store.Carries l carrier) {source : ContactId} {v : Json}
    (hv : carrier v) (hs : e.store.contains source = true) : ∃ p, e.propagate source v = .ok p := by
  obtain ⟨p, hu⟩ := h.update_isOk hc hv hs
  exact Engine.exists_propagate hu

variable {h}

theorem Spread.level_le {s s' : ContactStore} {source : ContactId} {v : Json} (hs : h.Spread s s' source v)
    (id : ContactId) : h.level s id ≤ h.level s' id := by
  rcases hs.kept id with he | ⟨-, hlt, -⟩
  · rw [h.level_congr he]
  · exact hlt.le

/-- What is closed under the connections and above the value at its source is above all it has spread to. -/
theorem Spread.bounded {s s' : ContactStore} {source : ContactId} {v : Json} (hs : h.Spread s s' source v)
    {F : ContactId → h.Element} (hedges : ∀ a b, s.Feeds a b → F a ≤ F b) (hle : ∀ id, h.level s id ≤ F id)
    (hv : h.element v ≤ F source) (id : ContactId) : h.level s' id ≤ F id := by
  by_cases hr : s.Reaches source id
  · have hF : F source ≤ F id := by
      induction hr with
      | refl => exact le_rfl
      | tail _ hab ih => exact ih.trans (hedges _ _ hab)
    rw [hs.reached id hr]
    exact sup_le (hle id) ((sup_le (hle source) hv).trans hF)
  · rw [h.level_congr (hs.level_of_not_reaches hr)]
    exact hle id

/-- A call from rest ends at rest. -/
theorem AtRest.propagate {e e' : Engine} {source : ContactId} {v : Json} {stats : PropagationStats}
    (he : h.AtRest e) (hv : carrier v) (hp : e.propagate source v = .ok (e', stats))
    (hn : stats.truncated = false) : h.AtRest e' ∧ h.Spread e.store e'.store source v := by
  have hadv := Engine.advances_propagate hp
  obtain ⟨hspread, -⟩ := h.spread_propagate he.wired he.carries he.threshold
    (fun a b hab _ => he.satisfied a b hab) hv hp hn
  refine ⟨⟨hadv.wired he.wired, hspread.carries, Engine.limits_propagate hp ▸ he.threshold,
    fun a b hab => hspread.satisfied a b (hadv.feeds_iff.1 hab), fun id c hc => ?_⟩, hspread⟩
  rcases hspread.kept id with hk | ⟨-, hlt, -⟩
  · rw [h.level_congr hk]
    exact he.positive id c (hk ▸ hc)
  · exact .inr (bot_lt_iff_ne_bot.1 (bot_le.trans_lt hlt))

theorem AtRest.deliver {values : List (ContactId × Json)} {e : Engine} (he : h.AtRest e)
    (hv : ∀ p ∈ values, carrier p.2)
    (hn : (e.deliver values).totals.truncations = e.totals.truncations) :
    h.Delivered e values (e.deliver values) := by
  induction values generalizing e with
  | nil => exact ⟨he, fun _ => le_rfl, nofun, fun F _ hle _ => hle⟩
  | cons p rest ih =>
    obtain ⟨contact, v⟩ := p
    have hv₀ : carrier v := hv _ List.mem_cons_self
    have hvrest : ∀ p ∈ rest, carrier p.2 := fun p hp => hv p (List.mem_cons_of_mem _ hp)
    rw [Engine.deliver] at hn ⊢
    cases hp : e.propagate contact v with
    | error cause =>
      rw [hp] at hn
      have hmissing : e.store.contains contact ≠ true := fun hin => by
        obtain ⟨q, hq⟩ := h.propagate_isOk he.carries hv₀ hin
        rw [hp] at hq
        cases hq
      have hrest := ih he hvrest hn
      refine ⟨hrest.atRest, hrest.grows, fun q hq hin => ?_, fun F hedges hle hF =>
        hrest.bounded F hedges hle fun q hq => hF q (List.mem_cons_of_mem _ hq)⟩
      rcases List.mem_cons.1 hq with rfl | hq
      · exact absurd hin hmissing
      · exact hrest.reached q hq hin
    | ok r =>
      obtain ⟨e₁, stats⟩ := r
      rw [hp] at hn
      simp only at hn ⊢
      -- totals only grow, so neither this call nor those after it was cut short
      have htotals : e₁.totals.truncations =
          e.totals.truncations + if stats.truncated then 1 else 0 := by
        rw [Engine.totals_propagate hp]
        rfl
      have hgrow := e₁.truncations_deliver rest
      have hwhole : stats.truncated = false := by
        by_contra ht
        rw [Bool.not_eq_false] at ht
        rw [ht] at htotals
        simp only [if_true] at htotals
        omega
      have hadv := Engine.advances_propagate hp
      obtain ⟨he₁, hspread⟩ := he.propagate hv₀ hp hwhole
      rw [hwhole] at htotals
      have hrest := ih he₁ hvrest (hn.trans (by simpa using htotals.symm))
      refine ⟨hrest.atRest, fun id => (hspread.level_le id).trans (hrest.grows id), fun q hq hin => ?_,
        fun F hedges hle hF => ?_⟩
      · rcases List.mem_cons.1 hq with rfl | hq
        · refine le_trans ?_ (hrest.grows _)
          rw [hspread.reached _ .refl]
          exact le_sup_right.trans le_sup_right
        · exact hrest.reached q hq ((hadv.contains_eq q.1).trans hin)
      · have hcontact : e.store.contains contact = true := by
          obtain ⟨_, _, _, hu, -⟩ := Engine.propagate_cases hp
          obtain ⟨c, -, hc, -⟩ := ContactStore.update_cases hu
          exact Dict.contains_iff.2 ⟨c, hc⟩
        refine hrest.bounded F (fun a b hab => hedges a b (hadv.feeds_iff.1 hab))
          (hspread.bounded hedges hle (hF _ List.mem_cons_self hcontact)) fun q hq hin => ?_
        exact hF q (List.mem_cons_of_mem _ hq) ((hadv.contains_eq q.1).symm.trans hin)

end Patchbay.Lattice.Lawful
