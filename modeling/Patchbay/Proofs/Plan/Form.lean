import Patchbay.Plan.Edit
import Patchbay.Plan.Form
import Patchbay.Proofs.Board.Form

/-! Plans are written without loss, but for a policy that is null: the reader takes it for none, so that a patch that is
to clear a policy leaves it alone once it has been written. -/

namespace Patchbay

open Json JsonForm

/-! ## Selectors -/

theorem EndpointShape.decode?_shapeName (s : EndpointShape) : decode? (WireSelector.shapeName (encode s)) = some s := by
  cases s <;> rfl

namespace WireSelector

variable {numbered : Bool} {j : Json} {f : List (String × Json)}

theorem ofJson?_tag {label : String}
    (hj : tagged? numbered "by" ["tag", "shape", "has_aspect"] j = some ("tag", .obj f))
    (hlabel : required? f "tag" = some label) : ofJson? numbered j = some (.tag label) := by
  simp [ofJson?, hj, fields?, hlabel]

/-- The shapes of the ends are read after they have been given their names. -/
theorem ofJson?_shape {source target : EndpointShape}
    (hj : tagged? numbered "by" ["tag", "shape", "has_aspect"] j = some ("shape", .obj f))
    (hsource : Entries.find? "from" f = some (encode source)) (htarget : Entries.find? "to" f = some (encode target)) :
    ofJson? numbered j = some (.shape source target) := by
  have hnamed {k : String} {s : EndpointShape} (hk : Entries.find? k f = some (encode s)) :
      required? (f.map fun e => (e.1, shapeName e.2)) k = some s := by
    rw [required?, Entries.find?_mapValues fun _ => shapeName, hk, Option.map_some, Option.bind_some,
      s.decode?_shapeName]
  simp [ofJson?, hj, fields?, hnamed hsource, hnamed htarget]

theorem ofJson?_hasAspect {aspect : AspectId}
    (hj : tagged? numbered "by" ["tag", "shape", "has_aspect"] j = some ("has_aspect", .obj f))
    (haspect : required? f "aspect" = some aspect) : ofJson? numbered j = some (.hasAspect aspect) := by
  simp [ofJson?, hj, fields?, haspect]

theorem ofJson?_encode (numbered : Bool) (s : WireSelector) : ofJson? numbered (encode s) = some s := by
  cases s with
  | tag label =>
    exact ofJson?_tag (tagged?_mkObj (by simp) (by simp))
      (required?_of_find? (by simp [Entries.find?_erase_of_ne]) (lossless_string.decode_encode trivial))
  | shape source target =>
    exact ofJson?_shape (tagged?_mkObj (by simp) (by simp)) (by simp [Entries.find?_erase_of_ne])
      (by simp [Entries.find?_erase_of_ne])
  | hasAspect aspect =>
    exact ofJson?_hasAspect (tagged?_mkObj (by simp) (by simp))
      (required?_of_find? (by simp [Entries.find?_erase_of_ne]) (lossless_string.decode_encode trivial))

theorem readable_encode (s : WireSelector) {n : Nat} (hn : 1 ≤ n) : Readable n (encode s) := by
  obtain ⟨m, rfl⟩ := Nat.exists_eq_add_of_le' hn
  cases s with
  | tag label => exact readable_mkObj <| .append (allReadable_member (.str _)) (allReadable_member (.str _))
  | shape source target =>
    exact readable_mkObj <| .append (.append (allReadable_member (.str _)) (allReadable_member (.str _)))
      (allReadable_member (.str _))
  | hasAspect aspect => exact readable_mkObj <| .append (allReadable_member (.str _)) (allReadable_member (.str _))

end WireSelector

/-! ## Patches -/

theorem lossless_option_aspects : Lossless (Option (List AspectInstance)) 2 fun _ => True :=
  (lossless_aspectInstance.list.option fun _ _ => nofun).congr fun _ =>
    iff_of_true trivial fun _ _ => ⟨fun _ _ => trivial, nofun⟩

theorem lossless_option_names : Lossless (Option Names) 1 fun _ => True :=
  (lossless_names.option fun _ _ => nofun).congr fun _ => iff_of_true trivial fun _ _ => ⟨trivial, nofun⟩

namespace WirePatch

theorem decode?_eq_some_iff {j : Json} {p : WirePatch} :
    decode? j = some p ↔ ∃ f, fields? ["aspects", "labels", "policy"] j = some f ∧
      optional? f "aspects" none = some p.aspects ∧ optional? f "labels" none = some p.labels ∧
      optional? f "policy" none = some p.policy := by
  cases p
  simp [decode?, Option.bind_eq_some_iff]

/-- The patch does not ask for the policy to be cleared. -/
def NoNullPolicy (p : WirePatch) : Prop := p.policy ≠ some .null

/-- A patch as it is read where it was written: a policy that is null is taken for none. -/
def asRead (p : WirePatch) : WirePatch := { p with policy := p.policy.filter fun v => !v.isNull }

theorem asRead_eq_self_iff {p : WirePatch} : p.asRead = p ↔ p.NoNullPolicy := by
  rw [NoNullPolicy, ← filter_isNull_eq_self_iff]
  exact ⟨congrArg policy, fun h => congrArg (fun v => { p with policy := v }) h⟩

theorem decode?_encode (p : WirePatch) : decode? (encode p) = some p.asRead := by
  rw [asRead]
  exact decode?_eq_some_iff.2 ⟨_, fields?_mkObj _ _,
    optional?_of_find?_ifSome (by simp) (lossless_option_aspects.decode_encode trivial),
    optional?_of_find?_ifSome (by simp) (lossless_option_names.decode_encode trivial),
    optional?_of_find?_json (by simp)⟩

end WirePatch

theorem lossless_wirePatch : Lossless WirePatch 3 WirePatch.NoNullPolicy where
  decode_encode {p} hp := by rw [p.decode?_encode, WirePatch.asRead_eq_self_iff.2 hp]
  holds h := by
    obtain ⟨f, -, -, -, hpolicy⟩ := WirePatch.decode?_eq_some_iff.1 h
    exact lossless_option_json.optional_holds (Option.some_ne_none _).symm hpolicy
  readable hn hj h := by
    obtain ⟨f, hf, haspects, hlabels, hpolicy⟩ := WirePatch.decode?_eq_some_iff.1 h
    obtain ⟨m, rfl, hm⟩ := hj.fields? hf
    have haspects := lossless_option_aspects.optional_readable (by omega) hm .null haspects
    have hlabels := lossless_option_names.optional_readable (by omega) hm .null hlabels
    have hpolicy := lossless_option_json.optional_readable (Nat.zero_le m) hm .null hpolicy
    exact readable_mkObj <| .append (.append (allReadable_memberIfSome haspects) (allReadable_memberIfSome hlabels))
      (allReadable_memberIfSome hpolicy)

/-! ## Edits -/

namespace BoardEdit

variable {f : List (String × Json)} {e : BoardEdit} {n : Nat}

/-- The name that the member `op` gives the edit. -/
def op : BoardEdit → String
  | .addWire _ => "add_wire"
  | .updateWire .. => "update_wire"
  | .weaveWires .. => "weave_wires"
  | .removeWire _ => "remove_wire"
  | .mountGadget .. => "mount_gadget"
  | .unmountGadget _ => "unmount_gadget"

/-- The fields of an edit are found among these members. -/
def FoundIn (f : List (String × Json)) : BoardEdit → Prop
  | .addWire wire => required? f "wire" = some wire
  | .updateWire id patch => required? f "id" = some id ∧ required? f "patch" = some patch
  | .weaveWires selector aspect =>
    (Entries.find? "selector" f).bind (WireSelector.ofJson? true) = some selector ∧
      required? f "aspect" = some aspect
  | .removeWire id => required? f "id" = some id
  | .mountGadget slot occupant => required? f "slot" = some slot ∧ required? f "occupant" = some occupant
  | .unmountGadget gadget => required? f "gadget" = some gadget

theorem ofMembers?_of_foundIn (hop : Entries.find? "op" f = some (.str e.op)) (h : e.FoundIn f) :
    ofMembers? f = some e := by
  have halt : alternative? true names (.str e.op) = some e.op := if_pos (by cases e <;> simp [op, names])
  rw [ofMembers?, hop, Option.bind_eq_bind, Option.bind_some, halt, Option.bind_eq_bind, Option.bind_some]
  cases e with
  | addWire wire =>
    have hwire : required? f "wire" = some wire := h
    simp [op, hwire]
  | updateWire id patch =>
    obtain ⟨hid, hpatch⟩ := h
    simp [op, hid, hpatch]
  | weaveWires selector aspect =>
    obtain ⟨hselector, haspect⟩ := h
    obtain ⟨j, hj, hread⟩ := Option.bind_eq_some_iff.1 hselector
    simp [op, hj, hread, haspect]
  | removeWire id =>
    have hid : required? f "id" = some id := h
    simp [op, hid]
  | mountGadget slot occupant =>
    obtain ⟨hslot, hoccupant⟩ := h
    simp [op, hslot, hoccupant]
  | unmountGadget gadget =>
    have hgadget : required? f "gadget" = some gadget := h
    simp [op, hgadget]

theorem foundIn_of_ofMembers? (h : ofMembers? f = some e) : e.FoundIn f := by
  simp only [ofMembers?, Option.bind_eq_bind, Option.bind_eq_some_iff] at h
  obtain ⟨j, -, name, -, h⟩ := h
  split at h <;> simp only [Option.bind_eq_some_iff, Option.pure_def, Option.some.injEq] at h
  · obtain ⟨wire, hwire, rfl⟩ := h
    exact hwire
  · obtain ⟨id, hid, patch, hpatch, rfl⟩ := h
    exact ⟨hid, hpatch⟩
  · obtain ⟨i, hi, selector, hread, aspect, haspect, rfl⟩ := h
    exact ⟨Option.bind_eq_some_iff.2 ⟨i, hi, hread⟩, haspect⟩
  · obtain ⟨id, hid, rfl⟩ := h
    exact hid
  · obtain ⟨slot, hslot, occupant, hoccupant, rfl⟩ := h
    exact ⟨hslot, hoccupant⟩
  · obtain ⟨gadget, hgadget, rfl⟩ := h
    exact hgadget

/-- No wire is added with a policy that is null, and no policy is to be cleared. -/
def NoNullPolicy : BoardEdit → Prop
  | .addWire wire => wire.NoNullPolicy
  | .updateWire _ patch => patch.NoNullPolicy
  | _ => True

/-- An edit as it is read where it was written. -/
def asRead : BoardEdit → BoardEdit
  | .addWire wire => .addWire wire.asRead
  | .updateWire id patch => .updateWire id patch.asRead
  | e => e

theorem asRead_eq_self_iff : e.asRead = e ↔ e.NoNullPolicy := by
  cases e with
  | addWire wire => rw [asRead, addWire.injEq, Wire.asRead_eq_self_iff, NoNullPolicy]
  | updateWire id patch => simp [asRead, NoNullPolicy, WirePatch.asRead_eq_self_iff]
  | _ => exact iff_of_true rfl trivial

theorem noNullPolicy_of_foundIn (h : e.FoundIn f) : e.NoNullPolicy := by
  cases e with
  | addWire wire => exact lossless_wire.required_holds h
  | updateWire id patch => exact lossless_wirePatch.required_holds h.2
  | _ => trivial

/-- What is written of an edit is found among the members of its plan. -/
theorem foundIn_members (e : BoardEdit) (principal reason : String) :
    e.asRead.FoundIn (Entries.ofList (e.members ++ member "by" principal ++ member "reason" reason)) := by
  cases e with
  | addWire wire => exact Option.bind_eq_some_iff.2 ⟨_, by simp [members], wire.decode?_encode⟩
  | updateWire id patch =>
    exact ⟨required?_of_find? (by simp [members]) (lossless_string.decode_encode trivial),
      Option.bind_eq_some_iff.2 ⟨_, by simp [members], patch.decode?_encode⟩⟩
  | weaveWires selector aspect =>
    exact ⟨Option.bind_eq_some_iff.2 ⟨_, by simp [members], selector.ofJson?_encode true⟩,
      required?_of_find? (by simp [members]) (lossless_aspectInstance.decode_encode trivial)⟩
  | removeWire id => exact required?_of_find? (by simp [members]) (lossless_string.decode_encode trivial)
  | mountGadget slot occupant =>
    exact ⟨required?_of_find? (by simp [members]) (lossless_string.decode_encode trivial),
      required?_of_find? (by simp [members]) (lossless_occupant.decode_encode trivial)⟩
  | unmountGadget gadget => exact required?_of_find? (by simp [members]) (lossless_string.decode_encode trivial)

theorem allReadable_members (hn : 3 ≤ n) (hf : AllReadable n f) (h : e.FoundIn f) : AllReadable n e.members := by
  cases e with
  | addWire wire =>
    exact .append (allReadable_member (.str _)) (allReadable_member (lossless_wire.required_readable hn hf h))
  | updateWire id patch =>
    exact .append (.append (allReadable_member (.str _)) (allReadable_member (.str _)))
      (allReadable_member (lossless_wirePatch.required_readable hn hf h.2))
  | weaveWires selector aspect =>
    exact .append (.append (allReadable_member (.str _)) (allReadable_member (selector.readable_encode (by omega))))
      (allReadable_member (lossless_aspectInstance.required_readable (by omega) hf h.2))
  | removeWire id => exact .append (allReadable_member (.str _)) (allReadable_member (.str _))
  | mountGadget slot occupant =>
    exact .append (.append (allReadable_member (.str _)) (allReadable_member (.str _)))
      (allReadable_member (lossless_occupant.required_readable (by omega) hf h.2))
  | unmountGadget gadget => exact .append (allReadable_member (.str _)) (allReadable_member (.str _))

/-- Whether the policies that a plan holds are null is to be seen from what it does to boards. -/
theorem noNullPolicy_of_apply (h : ∀ b : Board, e.asRead.apply b = e.apply b) : e.NoNullPolicy := by
  cases e with
  | addWire wire =>
    have hwires := congrArg Board.wires (Except.ok.inj (h { id := "" }))
    exact Wire.asRead_eq_self_iff.1 (List.singleton_inj.1 hwires)
  | updateWire id patch =>
    intro hnull
    -- a wire that has a policy keeps it only where the patch is silent about it
    let wire : Wire := { id, source := .ofSlot "" "", target := .ofSlot "" "", policy := some (.bool true) }
    have hsilent : patch.asRead.policy = none := by
      rw [WirePatch.asRead, hnull]
      rfl
    have hsame := h { id := "", wires := [wire] }
    simp [asRead, apply, Board.updateWire, Board.patchWires, wire, WirePatch.apply, hnull, hsilent] at hsame
  | _ => trivial

end BoardEdit

/-! ## Plans -/

namespace Plan

theorem decode?_eq_some_iff {j : Json} {p : Plan} :
    decode? j = some p ↔ ∃ f, j = .obj f ∧ BoardEdit.ofMembers? f = some p.edit ∧
      optional? f "by" "" = some p.principal ∧ optional? f "reason" "" = some p.reason := by
  cases p
  cases j <;> simp [decode?, Option.bind_eq_some_iff]

def NoNullPolicy (p : Plan) : Prop := p.edit.NoNullPolicy

/-- A plan as it is read where it was written: a policy that is null is taken for none. -/
def asRead (p : Plan) : Plan := { p with edit := p.edit.asRead }

theorem decode?_encode (p : Plan) : decode? (encode p) = some p.asRead := by
  refine decode?_eq_some_iff.2 ⟨Entries.ofList (p.edit.members ++ member "by" p.principal ++ member "reason" p.reason),
    rfl, BoardEdit.ofMembers?_of_foundIn ?_ (p.edit.foundIn_members ..),
    optional?_of_find? ?_ (lossless_string.decode_encode trivial),
    optional?_of_find? ?_ (lossless_string.decode_encode trivial)⟩
  · rw [asRead]
    cases p.edit <;> simp [BoardEdit.members, BoardEdit.asRead, BoardEdit.op, encode]
  · cases p.edit <;> simp [BoardEdit.members, asRead]
  · cases p.edit <;> simp [BoardEdit.members, asRead]

end Plan

theorem lossless_plan : Lossless Plan 4 Plan.NoNullPolicy where
  decode_encode {p} hp := by rw [p.decode?_encode, Plan.asRead, BoardEdit.asRead_eq_self_iff.2 hp]
  holds h := by
    obtain ⟨f, -, hedit, -⟩ := Plan.decode?_eq_some_iff.1 h
    exact BoardEdit.noNullPolicy_of_foundIn (BoardEdit.foundIn_of_ofMembers? hedit)
  readable hn hj h := by
    obtain ⟨f, rfl, hedit, -⟩ := Plan.decode?_eq_some_iff.1 h
    cases hj with
    | obj _ hf =>
      exact readable_mkObj <| .append (.append (BoardEdit.allReadable_members (by omega) hf
        (BoardEdit.foundIn_of_ofMembers? hedit)) (allReadable_member (.str _))) (allReadable_member (.str _))

theorem roundTrips_plan : RoundTrips Plan Plan.NoNullPolicy := lossless_plan.roundTrips (by decide)

/-- A plan to clear the policy of a wire. -/
def Plan.clearing : Plan := { edit := .updateWire "w" { policy := some .null } }

/-- A board with a wire that has a policy. -/
def Board.guarded : Board :=
  let wire : Wire :=
    { id := "w", source := .ofGadget "g" "out", target := .ofSlot "s" "in", policy := some (.str "drop") }
  { id := "b", wires := [wire] }

end Patchbay
