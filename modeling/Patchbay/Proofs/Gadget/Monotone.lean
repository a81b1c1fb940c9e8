import Patchbay.Proofs.Gadget.Rest
import Patchbay.Proofs.Gadget.Turn

/-! Gadgets that are monotone functions, and the assignments of elements to contacts that they are content with. -/

namespace Patchbay

namespace Registration

/-- What lets a gadget fire: a value other than null for each of its input pins and for nothing else. -/
def Fits (r : Registration) (carrier : Json → Prop) (x : PinValues) : Prop :=
  ∀ pin, (pin ∈ r.gadget.inputs → ∃ v, x.get? pin = some v ∧ carrier v ∧ v ≠ .null) ∧
    (pin ∉ r.gadget.inputs → x.get? pin = none)

/-- What a gadget answers at its first call. -/
def answer (r : Registration) (id : GadgetId) (x : PinValues) : PinValues :=
  match (r.gadget.process [] ⟨0, x, ⟨id, r.mount.params⟩⟩).result with
  | .ok outputs => outputs
  | .error _ => ∅

/-- A gadget on whose declared inputs alone there are contacts. It fires as soon as its inputs are there, never fails,
answers by its inputs alone, and gives more on every bound output for more on its inputs, an output that is missing
being null. -/
structure Monotone (r : Registration) (l : Lattice) (carrier : Json → Prop) (id : GadgetId) : Prop where
  mounted : ∀ pin, r.mount.inputs.contains pin = true → pin ∈ r.gadget.inputs
  activation : r.gadget.activation = Gadget.allPresent r.gadget.inputs
  pure : ∀ calls time x, r.Fits carrier x →
    (r.gadget.process calls ⟨time, x, ⟨id, r.mount.params⟩⟩).result = .ok (r.answer id x)
  carries : ∀ x pin contact v, r.Fits carrier x → r.mount.outputs.get? pin = some contact →
    (r.answer id x).get? pin = some v → carrier v
  mono : ∀ x y, r.Fits carrier x → r.Fits carrier y →
    (∀ pin ∈ r.gadget.inputs, l.Below (x.getD pin .null) (y.getD pin .null)) →
    ∀ pin contact, r.mount.outputs.get? pin = some contact →
      l.Below ((r.answer id x).getD pin .null) ((r.answer id y).getD pin .null)

end Registration

namespace Lattice.Lawful

variable {l : Lattice} {carrier : Json → Prop} (h : l.Lawful carrier)

/-- The inputs could have been read where contacts hold no more than `F` gives them. -/
structure Under (r : Registration) (x : PinValues) (F : ContactId → h.Element) : Prop where
  nonempty : r.gadget.inputs ≠ []
  fits : r.Fits carrier x
  bound : ∀ pin ∈ r.gadget.inputs, ∃ contact, r.mount.inputs.get? pin = some contact ∧
    h.element (x.getD pin .null) ≠ ⊥ ∧ h.element (x.getD pin .null) ≤ F contact

/-- Connections, updates and gadgets ask for no more than `F` gives to the contacts of the bench. -/
structure Closed (b : Bench) (updates : List (ContactId × Json)) (F : ContactId → h.Element) : Prop where
  edges : ∀ a c, b.engine.store.Feeds a c → F a ≤ F c
  updated : ∀ p ∈ updates, b.engine.store.contains p.1 = true → h.element p.2 ≤ F p.1
  answered : ∀ id r x, b.executor.gadgets.get? id = some r → h.Under r x F →
    ∀ pin contact, r.mount.outputs.get? pin = some contact → b.engine.store.contains contact = true →
      h.element ((r.answer id x).getD pin .null) ≤ F contact

variable {h}

theorem Under.mono {r : Registration} {x : PinValues} {F G : ContactId → h.Element} (hx : h.Under r x F)
    (hle : ∀ id, F id ≤ G id) : h.Under r x G where
  nonempty := hx.nonempty
  fits := hx.fits
  bound pin hp := by
    obtain ⟨contact, hc, hn, hF⟩ := hx.bound pin hp
    exact ⟨contact, hc, hn, hF.trans (hle contact)⟩

theorem Closed.subset {b : Bench} {us vs : List (ContactId × Json)} {F : ContactId → h.Element}
    (hF : h.Closed b us F) (hsub : ∀ p ∈ vs, p ∈ us) : h.Closed b vs F :=
  { hF with updated := fun p hp => hF.updated p (hsub p hp) }

/-- Values of the answer are in the carrier, those that are missing too. -/
theorem carrier_answer {r : Registration} {id : GadgetId} (h : l.Lawful carrier)
    (hr : r.Monotone l carrier id) {x : PinValues} (hx : r.Fits carrier x) {pin : PinName}
    {contact : ContactId} (hc : r.mount.outputs.get? pin = some contact) :
    carrier ((r.answer id x).getD pin .null) := by
  rw [Dict.getD]
  cases hv : (r.answer id x).get? pin with
  | none => exact h.null_mem
  | some v => exact hr.carries x pin contact v hx hc hv

theorem carrier_input {r : Registration} (h : l.Lawful carrier) {x : PinValues} (hx : r.Fits carrier x)
    (pin : PinName) : carrier (x.getD pin .null) := by
  rw [Dict.getD]
  by_cases hp : pin ∈ r.gadget.inputs
  · obtain ⟨v, hv, hm, -⟩ := (hx pin).1 hp
    rwa [hv]
  · rw [(hx pin).2 hp]
    exact h.null_mem

theorem answer_le (h : l.Lawful carrier) {r : Registration} {id : GadgetId} (hr : r.Monotone l carrier id)
    {x y : PinValues} (hx : r.Fits carrier x) (hy : r.Fits carrier y)
    (hle : ∀ pin ∈ r.gadget.inputs, h.element (x.getD pin .null) ≤ h.element (y.getD pin .null))
    {pin : PinName} {contact : ContactId} (hc : r.mount.outputs.get? pin = some contact) :
    h.element ((r.answer id x).getD pin .null) ≤ h.element ((r.answer id y).getD pin .null) := by
  rw [← h.below_iff (h.carrier_answer hr hx hc) (h.carrier_answer hr hy hc)]
  refine hr.mono x y hx hy (fun p hp => ?_) pin contact hc
  exact (h.below_iff (h.carrier_input hx p) (h.carrier_input hy p)).2 (hle p hp)

/-! ## Reading at rest -/

/-- Inputs that are there are values of the carrier other than null, and at the levels of their contacts. -/
theorem AtRest.read {b : Bench} (hb : h.AtRest b.engine) {r : Registration} {x : PinValues}
    (hx : b.readInputs r = .ok x) (hp : Gadget.allPresent r.gadget.inputs x = true) :
    r.Fits carrier x ∧ ∀ pin ∈ r.gadget.inputs, ∃ contact, r.mount.inputs.get? pin = some contact ∧
      h.element (x.getD pin .null) ≠ ⊥ ∧
      h.element (x.getD pin .null) = h.level b.engine.store contact := by
  have hpin (pin) (hm : pin ∈ r.gadget.inputs) : ∃ contact c, r.mount.inputs.get? pin = some contact ∧
      b.engine.store.contacts.get? contact = some c ∧ x.get? pin = some c.value ∧ c.value ≠ .null := by
    obtain ⟨v, hv, hval⟩ := (Bench.get?_readInputs hx pin).1 hm
    have hne : v ≠ .null := by
      have hany := List.all_eq_true.1 hp pin hm
      rw [hv, Option.any_some, Bool.not_eq_true', ← Bool.not_eq_true, Json.isNull_iff] at hany
      exact hany
    unfold Bench.pinValue at hval
    split at hval
    · next contact hc =>
      obtain ⟨c, hget, rfl⟩ := ContactStore.value_eq_ok.1 hval
      exact ⟨contact, c, hc, hget, hv, hne⟩
    · cases hval
      exact absurd rfl hne
  refine ⟨fun pin => ⟨fun hm => ?_, (Bench.get?_readInputs hx pin).2⟩, fun pin hm => ?_⟩
  · obtain ⟨contact, c, -, hget, hv, hne⟩ := hpin pin hm
    exact ⟨c.value, hv, (hb.carries contact c hget).2, hne⟩
  · obtain ⟨contact, c, hc, hget, hv, hne⟩ := hpin pin hm
    have hlevel : h.element (x.getD pin .null) = h.level b.engine.store contact := by
      rw [Dict.getD, hv, h.level_of_get? hget]
      rfl
    exact ⟨contact, hc, hlevel ▸ (hb.positive contact c hget).resolve_left hne, hlevel⟩

theorem AtRest.under {b : Bench} (hb : h.AtRest b.engine) {r : Registration} {x : PinValues}
    (hne : r.gadget.inputs ≠ []) (hx : b.readInputs r = .ok x)
    (hp : Gadget.allPresent r.gadget.inputs x = true) : h.Under r x (h.level b.engine.store) := by
  obtain ⟨hfits, hread⟩ := hb.read hx hp
  refine ⟨hne, hfits, fun pin hm => ?_⟩
  obtain ⟨contact, hc, hn, he⟩ := hread pin hm
  exact ⟨contact, hc, hn, he.le⟩

/-- Where inputs could have been read, there are inputs to read. -/
theorem AtRest.exists_read {b : Bench} (hb : h.AtRest b.engine) {r : Registration} {x : PinValues}
    (hx : h.Under r x (h.level b.engine.store)) : ∃ y, b.readInputs r = .ok y ∧
      Gadget.allPresent r.gadget.inputs y = true ∧
      ∀ pin ∈ r.gadget.inputs, h.element (x.getD pin .null) ≤ h.element (y.getD pin .null) := by
  have hvalue (pin) (hm : pin ∈ r.gadget.inputs) : ∃ v, b.pinValue r pin = .ok v ∧ v ≠ .null := by
    obtain ⟨contact, hc, hn, hle⟩ := hx.bound pin hm
    cases hget : b.engine.store.contacts.get? contact with
    | none =>
      rw [h.level_of_none hget] at hle
      exact absurd (le_bot_iff.1 hle) hn
    | some c =>
      refine ⟨c.value, ?_, fun hnull => ?_⟩
      · rw [Bench.pinValue, hc]
        exact ContactStore.value_eq_ok.2 ⟨c, hget, rfl⟩
      · rw [h.level_of_get? hget, hnull, h.element_null] at hle
        exact hn (le_bot_iff.1 hle)
  obtain ⟨y, hy⟩ := Bench.readInputs_isOk fun pin hm => (hvalue pin hm).imp fun v hv => hv.1
  have hpresent : Gadget.allPresent r.gadget.inputs y = true := by
    refine List.all_eq_true.2 fun pin hm => ?_
    obtain ⟨v, hv, hval⟩ := (Bench.get?_readInputs hy pin).1 hm
    obtain ⟨w, hw, hne⟩ := hvalue pin hm
    rw [hval] at hw
    cases hw
    rw [hv, Option.any_some, Bool.not_eq_true', ← Bool.not_eq_true, Json.isNull_iff]
    exact hne
  refine ⟨y, hy, hpresent, fun pin hm => ?_⟩
  obtain ⟨contact, hc, -, hle⟩ := hx.bound pin hm
  obtain ⟨contact', hc', -, he⟩ := (hb.read hy hpresent).2 pin hm
  rw [hc] at hc'
  cases hc'
  exact he ▸ hle

end Lattice.Lawful

end Patchbay
