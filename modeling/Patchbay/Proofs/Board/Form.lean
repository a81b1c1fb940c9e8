import Patchbay.Board.Form
import Patchbay.Proofs.Json.Form

/-! Boards are written without loss, but for a policy that is null, which reads as no policy. -/

namespace Patchbay

open Json JsonForm

/-! ## Slots and occupants -/

theorem Slot.decode?_eq_some_iff {j : Json} {s : Slot} :
    decode? j = some s ↔ ∃ f, fields? ["requires", "tags"] j = some f ∧
      required? f "requires" = some s.requires ∧ optional? f "tags" ∅ = some s.tags := by
  cases s
  simp [decode?, Option.bind_eq_some_iff]

theorem lossless_slot : Lossless Slot 2 fun _ => True where
  decode_encode _ := Slot.decode?_eq_some_iff.2 ⟨_, fields?_mkObj _ _,
    required?_of_find? (by simp) (lossless_string.decode_encode trivial),
    optional?_of_find?_unless (by simp) Dict.isEmpty_iff.1 (lossless_names.decode_encode trivial)⟩
  holds _ := trivial
  readable hn hj h := by
    obtain ⟨f, hf, -⟩ := Slot.decode?_eq_some_iff.1 h
    obtain ⟨m, rfl, -⟩ := hj.fields? hf
    exact readable_mkObj <| .append (allReadable_member (.str _))
      (allReadable_memberUnless (readable_encode_names _ (by omega)))

theorem Occupant.decode?_eq_some_iff {j : Json} {o : Occupant} :
    decode? j = some o ↔ ∃ f, fields? ["id", "template", "params"] j = some f ∧ required? f "id" = some o.id ∧
      required? f "template" = some o.template ∧ optional? f "params" .null = some o.params := by
  cases o
  simp [decode?, Option.bind_eq_some_iff]

theorem lossless_occupant : Lossless Occupant 1 fun _ => True where
  decode_encode _ := Occupant.decode?_eq_some_iff.2 ⟨_, fields?_mkObj _ _,
    required?_of_find? (by simp) (lossless_string.decode_encode trivial),
    required?_of_find? (by simp) (lossless_string.decode_encode trivial),
    optional?_of_find?_unless (by simp) isNull_iff.1 (lossless_json.decode_encode trivial)⟩
  holds _ := trivial
  readable _ hj h := by
    obtain ⟨f, hf, -, -, hparams⟩ := Occupant.decode?_eq_some_iff.1 h
    obtain ⟨m, rfl, hm⟩ := hj.fields? hf
    have hparams := lossless_json.optional_readable (Nat.zero_le m) hm .null hparams
    exact readable_mkObj <| .append (.append (allReadable_member (.str _)) (allReadable_member (.str _)))
      (allReadable_memberUnless hparams)

/-! ## Pinouts -/

theorem Pinout.decode?_eq_some_iff {j : Json} {p : Pinout} :
    decode? j = some p ↔ ∃ f, fields? ["inputs", "outputs", "lattices"] j = some f ∧
      optional? f "inputs" [] = some p.inputs ∧ optional? f "outputs" [] = some p.outputs ∧
      optional? f "lattices" ∅ = some p.lattices := by
  cases p
  simp [decode?, Option.bind_eq_some_iff]

theorem lossless_pinout : Lossless Pinout 2 fun _ => True where
  decode_encode _ := Pinout.decode?_eq_some_iff.2 ⟨_, fields?_mkObj _ _,
    optional?_of_find? (by simp) (lossless_string.list.decode_encode fun _ _ => trivial),
    optional?_of_find? (by simp) (lossless_string.list.decode_encode fun _ _ => trivial),
    optional?_of_find?_unless (by simp) Dict.isEmpty_iff.1 (lossless_string.dict.decode_encode fun _ _ _ => trivial)⟩
  holds _ := trivial
  readable hn hj h := by
    obtain ⟨f, hf, hinputs, houtputs, hlattices⟩ := Pinout.decode?_eq_some_iff.1 h
    obtain ⟨m, rfl, hm⟩ := hj.fields? hf
    have hle : 1 ≤ m := by omega
    have hinputs := lossless_string.list.optional_readable hle hm (readable_encode_nil hle) hinputs
    have houtputs := lossless_string.list.optional_readable hle hm (readable_encode_nil hle) houtputs
    have hlattices := lossless_string.dict.optional_readable hle hm (readable_encode_empty hle) hlattices
    exact readable_mkObj <| .append (.append (allReadable_member hinputs) (allReadable_member houtputs))
      (allReadable_memberUnless hlattices)

/-! ## Wires -/

theorem Endpoint.decode?_eq_some_iff {j : Json} {e : Endpoint} :
    decode? j = some e ↔ ∃ f, fields? ["slot", "gadget", "pin"] j = some f ∧
      optional? f "slot" none = some e.slot ∧ optional? f "gadget" none = some e.gadget ∧
      required? f "pin" = some e.pin := by
  cases e
  simp [decode?, Option.bind_eq_some_iff]

theorem lossless_endpoint : Lossless Endpoint 1 fun _ => True where
  decode_encode _ := Endpoint.decode?_eq_some_iff.2 ⟨_, fields?_mkObj _ _,
    optional?_of_find?_ifSome (by simp) (lossless_option_string.decode_encode trivial),
    optional?_of_find?_ifSome (by simp) (lossless_option_string.decode_encode trivial),
    required?_of_find? (by simp) (lossless_string.decode_encode trivial)⟩
  holds _ := trivial
  readable _ hj h := by
    obtain ⟨f, hf, hslot, hgadget, -⟩ := Endpoint.decode?_eq_some_iff.1 h
    obtain ⟨m, rfl, hm⟩ := hj.fields? hf
    have hslot := lossless_option_string.optional_readable (Nat.zero_le m) hm .null hslot
    have hgadget := lossless_option_string.optional_readable (Nat.zero_le m) hm .null hgadget
    exact readable_mkObj <| .append (.append (allReadable_memberIfSome hslot) (allReadable_memberIfSome hgadget))
      (allReadable_member (.str _))

theorem AspectInstance.decode?_eq_some_iff {j : Json} {a : AspectInstance} :
    decode? j = some a ↔ ∃ f, fields? ["aspect", "params"] j = some f ∧
      required? f "aspect" = some a.aspect ∧ optional? f "params" .null = some a.params := by
  cases a
  simp [decode?, Option.bind_eq_some_iff]

theorem lossless_aspectInstance : Lossless AspectInstance 1 fun _ => True where
  decode_encode _ := AspectInstance.decode?_eq_some_iff.2 ⟨_, fields?_mkObj _ _,
    required?_of_find? (by simp) (lossless_string.decode_encode trivial),
    optional?_of_find?_unless (by simp) isNull_iff.1 (lossless_json.decode_encode trivial)⟩
  holds _ := trivial
  readable _ hj h := by
    obtain ⟨f, hf, -, hparams⟩ := AspectInstance.decode?_eq_some_iff.1 h
    obtain ⟨m, rfl, hm⟩ := hj.fields? hf
    have hparams := lossless_json.optional_readable (Nat.zero_le m) hm .null hparams
    exact readable_mkObj <| .append (allReadable_member (.str _)) (allReadable_memberUnless hparams)

theorem Wire.decode?_eq_some_iff {j : Json} {w : Wire} :
    decode? j = some w ↔ ∃ f, fields? ["id", "from", "to", "aspects", "labels", "policy"] j = some f ∧
      optional? f "id" "" = some w.id ∧ required? f "from" = some w.source ∧ required? f "to" = some w.target ∧
      optional? f "aspects" [] = some w.aspects ∧ optional? f "labels" ∅ = some w.labels ∧
      optional? f "policy" none = some w.policy := by
  cases w
  simp [decode?, Option.bind_eq_some_iff]

def Wire.NoNullPolicy (w : Wire) : Prop := w.policy ≠ some .null

/-- A wire as it is read where it was written: a policy that is null is taken for none. -/
def Wire.asRead (w : Wire) : Wire := { w with policy := w.policy.filter fun p => !p.isNull }

theorem Wire.asRead_eq_self_iff {w : Wire} : w.asRead = w ↔ w.NoNullPolicy := by
  rw [NoNullPolicy, ← filter_isNull_eq_self_iff]
  exact ⟨congrArg policy, fun h => congrArg (fun p => { w with policy := p }) h⟩

theorem Wire.decode?_encode (w : Wire) : decode? (encode w) = some w.asRead := by
  rw [asRead]
  exact Wire.decode?_eq_some_iff.2 ⟨_, fields?_mkObj _ _,
    optional?_of_find? (by simp) (lossless_string.decode_encode trivial),
    required?_of_find? (by simp) (lossless_endpoint.decode_encode trivial),
    required?_of_find? (by simp) (lossless_endpoint.decode_encode trivial),
    optional?_of_find?_unless (by simp) List.isEmpty_iff.1
      (lossless_aspectInstance.list.decode_encode fun _ _ => trivial),
    optional?_of_find?_unless (by simp) Dict.isEmpty_iff.1 (lossless_names.decode_encode trivial),
    optional?_of_find?_json (by simp)⟩

theorem lossless_wire : Lossless Wire 3 Wire.NoNullPolicy where
  decode_encode {w} hw := by rw [w.decode?_encode, Wire.asRead_eq_self_iff.2 hw]
  holds h := by
    obtain ⟨f, -, -, -, -, -, -, hpolicy⟩ := Wire.decode?_eq_some_iff.1 h
    exact lossless_option_json.optional_holds (Option.some_ne_none _).symm hpolicy
  readable hn hj h := by
    obtain ⟨f, hf, -, hsource, htarget, haspects, -, hpolicy⟩ := Wire.decode?_eq_some_iff.1 h
    obtain ⟨m, rfl, hm⟩ := hj.fields? hf
    have hle : 2 ≤ m := by omega
    have hsource := lossless_endpoint.required_readable (by omega) hm hsource
    have htarget := lossless_endpoint.required_readable (by omega) hm htarget
    have haspects := lossless_aspectInstance.list.optional_readable hle hm (readable_encode_nil (by omega)) haspects
    have hpolicy := lossless_option_json.optional_readable (Nat.zero_le m) hm .null hpolicy
    refine readable_mkObj <| .append (.append (.append (.append (.append ?_ ?_) ?_) ?_) ?_) ?_
    · exact allReadable_member (.str _)
    · exact allReadable_member hsource
    · exact allReadable_member htarget
    · exact allReadable_memberUnless haspects
    · exact allReadable_memberUnless (readable_encode_names _ (by omega))
    · exact allReadable_memberIfSome hpolicy

/-! ## Boards -/

theorem Board.decode?_eq_some_iff {j : Json} {b : Board} :
    decode? j = some b ↔ ∃ f,
      fields? ["id", "slots", "occupants", "wires", "pinouts", "policy", "traits"] j = some f ∧
      required? f "id" = some b.id ∧ optional? f "slots" ∅ = some b.slots ∧
      optional? f "occupants" ∅ = some b.occupants ∧ optional? f "wires" [] = some b.wires ∧
      optional? f "pinouts" ∅ = some b.pinouts ∧ optional? f "policy" none = some b.policy ∧
      optional? f "traits" ∅ = some b.traits := by
  cases b
  simp [decode?, Option.bind_eq_some_iff]

/-- Neither the board nor a wire of it has a policy that is null. -/
def Board.NoNullPolicy (b : Board) : Prop := b.policy ≠ some .null ∧ ∀ w ∈ b.wires, w.NoNullPolicy

theorem lossless_board : Lossless Board 5 Board.NoNullPolicy where
  decode_encode hb := Board.decode?_eq_some_iff.2 ⟨_, fields?_mkObj _ _,
    required?_of_find? (by simp) (lossless_string.decode_encode trivial),
    optional?_of_find? (by simp) (lossless_slot.dict.decode_encode fun _ _ _ => trivial),
    optional?_of_find? (by simp)
      (lossless_occupant.list.dict.decode_encode fun _ _ _ _ _ => trivial),
    optional?_of_find? (by simp) (lossless_wire.list.decode_encode hb.2),
    optional?_of_find? (by simp) (lossless_pinout.dict.decode_encode fun _ _ _ => trivial),
    optional?_of_find?_ifSome (by simp) (lossless_option_json.decode_encode hb.1),
    optional?_of_find?_unless (by simp) Dict.isEmpty_iff.1 (lossless_names.decode_encode trivial)⟩
  holds h := by
    obtain ⟨f, -, -, -, -, hwires, -, hpolicy, -⟩ := Board.decode?_eq_some_iff.1 h
    exact ⟨lossless_option_json.optional_holds (Option.some_ne_none _).symm hpolicy,
      lossless_wire.list.optional_holds (List.forall_mem_nil _) hwires⟩
  readable hn hj h := by
    obtain ⟨f, hf, -, hslots, hoccupants, hwires, hpinouts, hpolicy, -⟩ := Board.decode?_eq_some_iff.1 h
    obtain ⟨m, rfl, hm⟩ := hj.fields? hf
    have hle : 4 ≤ m := by omega
    have hempty : 1 ≤ m := by omega
    have hslots := lossless_slot.dict.optional_readable (by omega) hm (readable_encode_empty hempty) hslots
    have hoccupants :=
      lossless_occupant.list.dict.optional_readable (by omega) hm (readable_encode_empty hempty) hoccupants
    have hwires := lossless_wire.list.optional_readable hle hm (readable_encode_nil hempty) hwires
    have hpinouts := lossless_pinout.dict.optional_readable (by omega) hm (readable_encode_empty hempty) hpinouts
    have hpolicy := lossless_option_json.optional_readable (Nat.zero_le m) hm .null hpolicy
    refine readable_mkObj <| .append (.append (.append (.append (.append (.append ?_ ?_) ?_) ?_) ?_) ?_) ?_
    · exact allReadable_member (.str _)
    · exact allReadable_member hslots
    · exact allReadable_member hoccupants
    · exact allReadable_member hwires
    · exact allReadable_member hpinouts
    · exact allReadable_memberIfSome hpolicy
    · exact allReadable_memberUnless (readable_encode_names _ hempty)

end Patchbay
