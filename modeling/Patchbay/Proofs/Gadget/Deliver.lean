import Patchbay.Gadget.Bench
import Patchbay.Proofs.Propagation.Walk

/-! Values written one after the other, as a gadget's outputs are. -/

namespace Patchbay

namespace Engine

theorem limits_propagate {e e' : Engine} {source : ContactId} {v : Json} {stats : PropagationStats}
    (h : e.propagate source v = .ok (e', stats)) : e'.limits = e.limits := by
  obtain ⟨_, _, _, -, -, rfl, -⟩ := propagate_cases h
  rfl

theorem totals_propagate {e e' : Engine} {source : ContactId} {v : Json} {stats : PropagationStats}
    (h : e.propagate source v = .ok (e', stats)) : e'.totals = e.totals.record stats := by
  obtain ⟨_, _, _, -, -, rfl, -⟩ := propagate_cases h
  rfl

/-- Writes values to contacts, one after the other. A value that its contact refuses is passed over. -/
def deliver (e : Engine) : List (ContactId × Json) → Engine
  | [] => e
  | (contact, v) :: rest =>
    match e.propagate contact v with
    | .ok (e, _) => e.deliver rest
    | .error _ => e.deliver rest

theorem deliver_keeps {P : Engine → Prop} {values : List (ContactId × Json)}
    (step : ∀ e e' stats, ∀ p ∈ values, P e → e.propagate p.1 p.2 = .ok (e', stats) → P e') {e : Engine}
    (h : P e) : P (e.deliver values) := by
  induction values generalizing e with
  | nil => exact h
  | cons p rest ih =>
    have hrest {e : Engine} (he : P e) : P (e.deliver rest) :=
      ih (fun e e' stats q hq => step e e' stats q (List.mem_cons_of_mem p hq)) he
    rw [deliver]
    split
    · next e' stats hp => exact hrest (step e e' stats p List.mem_cons_self h hp)
    · exact hrest h

/-- A property of engines that no call takes away, nor the taking of news. -/
structure Steady (P : Engine → Prop) : Prop where
  propagate : ∀ {e e' source v stats}, P e → e.propagate source v = .ok (e', stats) → P e'
  takeMail : ∀ {e} recipient, P e → P { e with store := (e.store.takeMail recipient).1 }

theorem Steady.deliver {P : Engine → Prop} (hP : Steady P) {e : Engine} (h : P e)
    (values : List (ContactId × Json)) : P (e.deliver values) :=
  deliver_keeps (fun _ _ _ _ _ h hp => hP.propagate h hp) h

theorem advances_deliver (e : Engine) (values : List (ContactId × Json)) :
    e.store.Advances (e.deliver values).store :=
  deliver_keeps (P := fun e' => e.store.Advances e'.store)
    (fun _ _ _ _ _ h hp => h.trans (advances_propagate hp)) (.refl _)

theorem limits_deliver (e : Engine) (values : List (ContactId × Json)) :
    (e.deliver values).limits = e.limits :=
  deliver_keeps (P := fun e' => e'.limits = e.limits) (fun _ _ _ _ _ h hp => (limits_propagate hp).trans h) rfl

/-- Truncations are never fewer than they were. -/
theorem steady_truncations (n : Nat) : Steady fun e => n ≤ e.totals.truncations where
  propagate h hp := by
    rw [totals_propagate hp]
    exact Nat.le_trans h (Nat.le_add_right _ _)
  takeMail _ h := h

theorem truncations_deliver (e : Engine) (values : List (ContactId × Json)) :
    e.totals.truncations ≤ (e.deliver values).totals.truncations :=
  (steady_truncations e.totals.truncations).deliver (Nat.le_refl _) values

end Engine

/-- Where the outputs of a gadget go: those whose pins are bound, in the order of the pins. -/
def Mount.targets (m : Mount) (outputs : List (PinName × Json)) : List (ContactId × Json) :=
  outputs.filterMap fun o => (m.outputs.get? o.1).map (·, o.2)

theorem Mount.mem_targets {m : Mount} {outputs : PinValues} {contact : ContactId} {v : Json} :
    (contact, v) ∈ m.targets outputs.entries ↔
      ∃ pin, m.outputs.get? pin = some contact ∧ outputs.get? pin = some v := by
  simp only [targets, List.mem_filterMap, Option.map_eq_some_iff, Prod.mk.injEq, Prod.exists,
    Dict.get?_eq_some_iff]
  constructor
  · rintro ⟨pin, w, hw, c, hc, rfl, rfl⟩
    exact ⟨pin, hc, hw⟩
  · rintro ⟨pin, hc, hv⟩
    exact ⟨pin, v, hv, contact, hc, rfl, rfl⟩

theorem Bench.foldl_deliverOutput (m : Mount) (outputs : List (PinName × Json))
    (acc : Engine × PropagationStats) :
    (outputs.foldl (deliverOutput m) acc).1 = acc.1.deliver (m.targets outputs) := by
  induction outputs generalizing acc with
  | nil => rfl
  | cons o rest ih =>
    rw [List.foldl_cons, ih]
    cases hc : m.outputs.get? o.1 with
    | none => simp only [deliverOutput, Mount.targets, List.filterMap_cons, hc, Option.map_none]
    | some contact =>
      simp only [deliverOutput, Mount.targets, List.filterMap_cons, hc, Option.map_some, Engine.deliver]
      cases acc.1.propagate contact o.2 <;> rfl

end Patchbay
