import Patchbay.Proofs.Aspect.Composition

/-! What is known of parameters that a schema admits. The schema of rates admits nothing that is no rate. -/

namespace Patchbay

/-! ## Schemas -/

namespace Schema

variable {schema : Dict Json} {members : List (String × Json)} {name expected : String} {v property : Json}

theorem checkRequired_eq_ok_iff {names : List Json} (hs : schema.get? "required" = some (.arr names)) :
    checkRequired schema members = .ok () ↔ ∀ name, .str name ∈ names → ∃ v, Entries.find? name members = some v := by
  simp only [checkRequired, hs]
  constructor
  · intro h name hname
    have hcheck := ok_of_forM h _ hname
    simp only at hcheck
    split at hcheck
    · next hsome => exact Option.isSome_iff_exists.1 hsome
    · cases hcheck
  · intro h
    refine forM_eq_ok fun n hn => ?_
    split
    · next name => exact if_pos (Option.isSome_iff_exists.2 (h name hn))
    · rfl

theorem checkMember_eq_ok_iff (ht : property.get? "type" = some (.str expected))
    (hv : Entries.find? name members = some v) :
    checkMember members name property = .ok () ↔ hasType v expected = true := by
  simp only [checkMember, hv, ht]
  split <;> simp_all

theorem checkProperties_eq_ok_iff {properties : List (String × Json)}
    (hs : schema.get? "properties" = some (.obj properties)) :
    checkProperties schema members = .ok () ↔ ∀ e ∈ properties, checkMember members e.1 e.2 = .ok () := by
  simp only [checkProperties, hs]
  exact ⟨ok_of_forM, forM_eq_ok⟩

end Schema

/-! ## Rates -/

namespace Manifest

variable {v : Json}

/-- The lattice of rates, written down as data. -/
def rateSpec : LatticeSpec := .record "rate-limit" [("rps", .min)]

theorem toLattice_rateSpec : rateSpec.toLattice = rateLattice := rfl

theorem plain_rateSpec : rateSpec.Plain := by
  have hmin : LatticeSpec.Plain .min := .simple .min
  exact .record (by simpa using hmin)

/-- The schema of rates asks for a number `rps`, and for nothing else. -/
theorem validate_rateLimit_iff : rateLimit.validate v = .ok () ↔
    ∃ members x, v = .obj members ∧ Entries.find? "rps" members = some x ∧ x.typeName = "number" := by
  rw [show rateLimit.validate v = (Schema.check rateSchema v).mapError _ from rfl, mapError_eq_ok]
  constructor
  · intro hcheck
    cases v with
    | obj members =>
      obtain ⟨_, -, hcheck⟩ := ok_of_bind hcheck
      obtain ⟨_, hrequired, hproperties⟩ := ok_of_bind hcheck
      obtain ⟨x, hx⟩ : ∃ x, Entries.find? "rps" members = some x :=
        (Schema.checkRequired_eq_ok_iff rfl).1 hrequired _ List.mem_cons_self
      have hmember := (Schema.checkProperties_eq_ok_iff rfl).1 hproperties _ List.mem_cons_self
      have htype : Schema.hasType x "number" = true := (Schema.checkMember_eq_ok_iff rfl hx).1 hmember
      exact ⟨members, x, rfl, hx, beq_iff_eq.1 htype⟩
    | _ => cases hcheck
  · rintro ⟨members, x, rfl, hx, hnumber⟩
    have hrps : ∀ name, Json.str name ∈ [Json.str "rps"] → name = "rps" := by simp
    refine bind_eq_ok.2 ⟨(), rfl, bind_eq_ok.2 ⟨(), ?_, ?_⟩⟩
    · exact (Schema.checkRequired_eq_ok_iff rfl).2 fun name hname => ⟨x, hrps name hname ▸ hx⟩
    · refine (Schema.checkProperties_eq_ok_iff rfl).2 fun e he => ?_
      obtain rfl := List.mem_singleton.1 he
      have htype : Schema.hasType x "number" = true := beq_iff_eq.2 hnumber
      exact (Schema.checkMember_eq_ok_iff rfl hx).2 htype

/-- Parameters that the schema of rates admits are a rate. -/
theorem carrier_of_validate (hv : v.Valid) (h : rateLimit.validate v = .ok ()) : rateSpec.Carrier v := by
  obtain ⟨members, x, rfl, hx, hnumber⟩ := validate_rateLimit_iff.1 h
  cases hv with
  | obj ho hmembers =>
    refine .obj ho (fun k s w hk hw => ?_) fun _ _ _ _ => trivial
    obtain ⟨rfl, rfl⟩ : k = "rps" ∧ s = .min := by simpa using LatticeSpec.mem_of_field? hk
    cases hx.symm.trans hw
    have hvalidx := hmembers _ ((Entries.find?_eq_some_iff ho).1 hx)
    exact .whole ((LatticeSpec.numeric_iff hvalidx).2 (.inr hnumber))

/-- Nothing of a rate goes unread. -/
theorem reads_rateLimit (hv : v.Valid) : rateLimit.Reads rateSpec v := by
  cases hvalid : rateLimit.validate v with
  | error e => exact .inl ⟨e, hvalid⟩
  | ok _ => exact .inr ⟨hv, fun y _ => LatticeSpec.safeAt_of_carrier (carrier_of_validate hv hvalid) y⟩

/-- Whatever a rate has for a member, joins keep or drop as it is written. -/
theorem find?_of_verbatim {p : Json} (h : rateSpec.Verbatim v p) :
    ∃ members k, v = .obj members ∧ Entries.find? k members = some p := by
  cases h with
  | number hs => rcases hs with hs | hs <;> cases hs
  | @listed _ _ m k s x _ hk hx hp =>
    obtain ⟨rfl, rfl⟩ : k = "rps" ∧ s = .min := by simpa using LatticeSpec.mem_of_field? hk
    cases hp with
    | number => exact ⟨m, "rps", rfl, hx⟩
  | @unlisted _ _ m k _ _ hx => exact ⟨m, k, rfl, hx⟩

/-- Rates may stand in any order if no two of their members are the same and written differently. -/
theorem orderless_rateLimit {rates : List AspectInstance} (hv : ∀ a ∈ rates, a.params.Valid)
    (hu : Lattice.Unambiguous fun p => ∃ a ∈ rates, rateLimit.validate a.params = .ok () ∧
      ∃ members k, a.params = .obj members ∧ Entries.find? k members = some p) :
    rateLimit.Orderless rates rateSpec where
  plain := plain_rateSpec
  compose_eq := congrArg some toLattice_rateSpec.symm
  reads a ha := reads_rateLimit (hv a ha)
  unambiguous := hu.mono fun _ ⟨a, ha, hvalid, hp⟩ => ⟨a, ha, hvalid, find?_of_verbatim hp⟩

end Manifest

end Patchbay
