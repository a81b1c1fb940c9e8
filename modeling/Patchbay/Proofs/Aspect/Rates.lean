import Patchbay.Proofs.Aspect.Folding
import Patchbay.Proofs.Aspect.Schema
import Mathlib.Order.Bounds.Basic

/-! Rates composed. From the first one on that the schema admits the fold holds a rate, with which the lattice joins
every other: all of them contribute, and they come to the lowest. -/

namespace Patchbay

/-- The `rps` of parameters, as a double. -/
def Json.rps? (v : Json) : Option Double := (v.get? "rps").bind Json.asDouble?

namespace Manifest

variable {v a b p q : Json} {x y : Double}

/-! ## Two rates -/

/-- Parameters of the lattice of rates with a number `rps`. -/
structure IsRate (v : Json) (x : Double) : Prop where
  carrier : rateSpec.Carrier v
  rps_eq : v.rps? = some x

theorem num_of_rps? (h : v.rps? = some x) :
    ∃ members n, v = .obj members ∧ Entries.find? "rps" members = some (.num n) ∧ n.toDouble? = some x := by
  obtain ⟨w, hw, hx⟩ := Option.bind_eq_some_iff.1 h
  cases v with
  | obj members =>
    cases w with
    | num n => exact ⟨members, n, rfl, hw, hx⟩
    | _ => cases hx
  | _ => cases hw

theorem IsRate.validate (h : IsRate v x) : rateLimit.validate v = .ok () := by
  obtain ⟨members, n, rfl, hn, -⟩ := num_of_rps? h.rps_eq
  exact validate_rateLimit_iff.2 ⟨members, .num n, rfl, hn, rfl⟩

theorem exists_isRate (hv : v.Valid) (h : rateLimit.validate v = .ok ()) : ∃ x, IsRate v x := by
  have hc := carrier_of_validate hv h
  obtain ⟨members, w, rfl, hw, hnumber⟩ := validate_rateLimit_iff.1 h
  cases hv with
  | obj ho hmembers =>
    have hvalid := hmembers _ ((Entries.find?_eq_some_iff ho).1 hw)
    cases w with
    | num n =>
      obtain ⟨x, hx⟩ := hvalid.exists_toDouble?
      exact ⟨x, hc, Option.bind_eq_some_iff.2 ⟨_, hw, hx⟩⟩
    | _ => simp [Json.typeName] at hnumber

/-- Whatever else two rates have, they join to one with the lower `rps`. -/
theorem IsRate.join (ha : IsRate a x) (hb : IsRate b y) :
    ∃ c z, rateLattice.join a b = .ok c ∧ IsRate c z ∧ z.units = min x.units y.units := by
  obtain ⟨c, hj, hc⟩ := plain_rateSpec.commutative.total ha.carrier hb.carrier
  obtain ⟨m, i, rfl, hi, hx⟩ := num_of_rps? ha.rps_eq
  obtain ⟨n, j, rfl, hj', hy⟩ := num_of_rps? hb.rps_eq
  obtain ⟨out, hout, rfl⟩ := Lattice.record_join_obj.1 hj
  have ho : Entries.Ordered n := by
    cases hb.carrier with
    | whole h => cases h
    | obj ho => exact ho
  have hat := Lattice.joinAt_of_joinMembers ho hout "rps"
  rw [hi, hj'] at hat
  have hmin : Lattice.joinAt .min (some (.num i)) (some (.num j)) = .ok (Entries.find? "rps" out) := hat
  rw [Lattice.joinAt, Lattice.min, Lattice.numeric_join_num hx hy] at hmin
  have hrps := (Except.ok.inj hmin).symm
  by_cases hlt : y.units < x.units
  · rw [Double.less, if_pos (decide_eq_true hlt)] at hrps
    exact ⟨_, y, hj, ⟨hc, Option.bind_eq_some_iff.2 ⟨_, hrps, hy⟩⟩, (min_eq_right hlt.le).symm⟩
  · rw [Double.less, if_neg (by simpa using hlt)] at hrps
    exact ⟨_, x, hj, ⟨hc, Option.bind_eq_some_iff.2 ⟨_, hrps, hx⟩⟩, (min_eq_left (not_lt.1 hlt)).symm⟩

/-! ## Several rates -/

variable {l taken : List (AspectInstance × Nat)} {dropped : List (Nat × DropReason)} {rates : List AspectInstance}

/-- The `rps` of those of the rates that the schema admits. -/
def admittedRps (rates : List AspectInstance) : Set Int :=
  { u | ∃ a ∈ rates, rateLimit.validate a.params = .ok () ∧ ∃ x, a.params.rps? = some x ∧ x.units = u }

theorem admittedRps_cons {a : AspectInstance} (h : IsRate a.params x) :
    admittedRps (a :: rates) = insert x.units (admittedRps rates) := by
  ext u
  simp [admittedRps, h.validate, h.rps_eq, eq_comm]

theorem admittedRps_cons_of_ne {a : AspectInstance} (h : rateLimit.validate a.params ≠ .ok ()) :
    admittedRps (a :: rates) = admittedRps rates := by
  ext u
  simp [admittedRps, h]

theorem isLeast_insert_min {s : Set Int} {i j u : Int} (h : IsLeast (insert (min i j) s) u) :
    IsLeast (insert i (insert j s)) u := by
  obtain ⟨hmem, hle⟩ := h
  obtain ⟨hi, hj⟩ := le_min_iff.1 (hle (Set.mem_insert _ s))
  constructor
  · rcases hmem with rfl | hs
    · rcases min_choice i j with hmin | hmin
      · exact .inl hmin
      · exact .inr (.inl hmin)
    · exact .inr (.inr hs)
  · rintro v (rfl | rfl | hv)
    · exact hi
    · exact hj
    · exact hle (.inr hv)

/-- The first rate is taken as it is. -/
theorem admitInstance_null : rateLimit.admitInstance .null v = .ok q ↔ rateLimit.validate v = .ok () ∧ v = q := by
  rw [admitInstance_eq_ok]
  exact and_congr_right fun _ => ⟨Except.ok.inj, congrArg Except.ok⟩

/-- The fold holds nothing so far, or a rate. -/
def Held (p : Json) : Prop := p = .null ∨ ∃ x, IsRate p x

theorem Held.exists_admitInstance (hp : Held p) (hv : v.Valid) (h : rateLimit.validate v = .ok ()) :
    ∃ joined, rateLimit.admitInstance p v = .ok joined ∧ Held joined := by
  obtain ⟨y, hy⟩ := exists_isRate hv h
  rcases hp with rfl | ⟨x, hx⟩
  · exact ⟨v, admitInstance_null.2 ⟨h, rfl⟩, .inr ⟨y, hy⟩⟩
  · obtain ⟨c, z, hc, hz, -⟩ := hx.join hy
    exact ⟨c, admitInstance_eq_ok.2 ⟨h, hc⟩, .inr ⟨z, hz⟩⟩

theorem Held.not_validate_of_error {reason : DropReason} (hp : Held p) (hv : v.Valid)
    (h : rateLimit.admitInstance p v = .error reason) : rateLimit.validate v ≠ .ok () := by
  intro hvalid
  obtain ⟨joined, hadmit, -⟩ := hp.exists_admitInstance hv hvalid
  cases h.symm.trans hadmit

theorem Sifts.lowest_of_isRate (h : rateLimit.Sifts p l taken dropped q) (hl : ∀ a ∈ l, a.1.params.Valid)
    (hp : IsRate p x) : ∃ y, IsRate q y ∧ IsLeast (insert x.units (admittedRps (l.map (·.1)))) y.units := by
  induction h generalizing x with
  | done => exact ⟨x, hp, by simp [admittedRps]⟩
  | take hx hrest ih =>
    obtain ⟨hvalid, hl⟩ := List.forall_mem_cons.1 hl
    obtain ⟨hadmits, hjoin⟩ := admitInstance_eq_ok.1 hx
    obtain ⟨y, hy⟩ := exists_isRate hvalid hadmits
    obtain ⟨c, z, hc, hz, hmin⟩ := hp.join hy
    cases hc.symm.trans hjoin
    obtain ⟨u, hu, hleast⟩ := ih hl hz
    rw [hmin] at hleast
    refine ⟨u, hu, ?_⟩
    rw [List.map_cons, admittedRps_cons hy]
    exact isLeast_insert_min hleast
  | drop hx hrest ih =>
    obtain ⟨hvalid, hl⟩ := List.forall_mem_cons.1 hl
    have hp' : Held _ := .inr ⟨x, hp⟩
    rw [List.map_cons, admittedRps_cons_of_ne (hp'.not_validate_of_error hvalid hx)]
    exact ih hl hp

/-- What is dropped before the first rate makes no difference to what the fold comes to. -/
theorem Sifts.lowest (h : rateLimit.Sifts .null l taken dropped q) (hl : ∀ a ∈ l, a.1.params.Valid)
    (hne : taken ≠ []) : ∃ y, IsRate q y ∧ IsLeast (admittedRps (l.map (·.1))) y.units := by
  generalize hp : Json.null = p at h
  induction h with
  | done => exact absurd rfl hne
  | take hx hrest =>
    subst hp
    obtain ⟨hvalid, hl⟩ := List.forall_mem_cons.1 hl
    obtain ⟨hadmits, rfl⟩ := admitInstance_null.1 hx
    obtain ⟨x, hr⟩ := exists_isRate hvalid hadmits
    rw [List.map_cons, admittedRps_cons hr]
    exact hrest.lowest_of_isRate hl hr
  | drop hx hrest ih =>
    obtain ⟨hvalid, hl⟩ := List.forall_mem_cons.1 hl
    have hp' : Held _ := .inl hp.symm
    rw [List.map_cons, admittedRps_cons_of_ne (hp'.not_validate_of_error hvalid hx)]
    exact ih hl hne hp

/-- Of rates whose parameters may be any values those contribute that the schema admits, and there is a composition if
there is one of these. It is a rate again, with the lowest `rps` of them all. -/
theorem compose?_rates (hv : ∀ a ∈ rates, a.params.Valid) :
    AspectRegistry.builtin.get? "rate-limit" = some rateLimit ∧
      (rateLimit.compose? rates = none ↔ ∀ a ∈ rates, rateLimit.validate a.params ≠ .ok ()) ∧
      ∀ c, rateLimit.compose? rates = some c → c.contributors.Pairwise (· < ·) ∧
        (∀ i, i ∈ c.contributors ↔ ∃ a, rates[i]? = some a ∧ rateLimit.validate a.params = .ok ()) ∧
        rateLimit.validate c.params = .ok () ∧
        ∃ x, c.params.rps? = some x ∧ IsLeast (admittedRps rates) x.units := by
  refine ⟨rfl, ?_, fun c hc => ?_⟩
  · have hsome : (∃ c, rateLimit.compose? rates = some c) ↔ _ := exists_compose?
    simp only [admitInstance_null, exists_and_left, exists_eq', and_true] at hsome
    rw [Option.eq_none_iff_forall_ne_some, ← not_exists, hsome]
    simp
  · obtain ⟨taken, hsifts, hcontributors, hne⟩ := sifts_of_compose? hc
    have hat : ∀ x ∈ rates.zipIdx, rates[x.2]? = some x.1 := fun x hx => List.mem_zipIdx_iff_getElem?.1 hx
    have hvalid : ∀ x ∈ rates.zipIdx, x.1.params.Valid := fun x hx => hv x.1 (List.mem_of_getElem? (hat x hx))
    have hall := hsifts.mem_taken (P := Held) (fun p hp x hx => hp.exists_admitInstance (hvalid x hx)) (.inl rfl)
    obtain ⟨x, hx, hleast⟩ := hsifts.lowest hvalid hne
    refine ⟨(sorts_of_compose? hc).contributors_ascend, fun i => ?_, hx.validate, x, hx.rps_eq, ?_⟩
    · rw [hcontributors, List.mem_map]
      constructor
      · rintro ⟨y, hy, rfl⟩
        exact ⟨y.1, hat y (hsifts.taken_sublist.mem hy), hsifts.validate_of_mem y hy⟩
      · rintro ⟨a, ha, hok⟩
        exact ⟨(a, i), hall (a, i) (List.mem_zipIdx_iff_getElem?.2 ha) hok, rfl⟩
    · rwa [List.zipIdx_map_fst] at hleast

/-- Two rates, and between them what is none. -/
theorem compose?_rates_three :
    let rates : List AspectInstance := [[("rps", .int 5), ("burst", .int 2)], [("rps", .str "fast")], [("rps", .int 3)]].map
      fun members => { aspect := "rate-limit", params := .mkObj members }
    ∃ c, rateLimit.compose? rates = some c ∧ c.contributors = [0, 2] ∧ rateLimit.validate c.params = .ok () ∧
      ∃ x, c.params.rps? = some x ∧ x.units = 3 * Double.one ∧ IsLeast (admittedRps rates) x.units := by
  intro rates
  have hv : ∀ a ∈ rates, a.params.Valid := by
    intro a ha
    obtain ⟨members, hmembers, rfl⟩ := List.mem_map.1 ha
    refine .mkObj fun e he => ?_
    simp only [List.mem_cons, List.not_mem_nil, or_false] at hmembers
    rcases hmembers with rfl | rfl | rfl <;> simp only [List.mem_cons, List.not_mem_nil, or_false] at he
    · rcases he with rfl | rfl
      · exact .int (by decide)
      · exact .int (by decide)
    · exact he ▸ .str "fast"
    · exact he ▸ .int (by decide)
  have hrates : (rateLimit.compose? rates).any (fun c =>
      c.contributors = [0, 2] ∧ c.params.rps?.map Double.units = some (3 * (Double.one : Int))) = true := by decide +kernel
  obtain ⟨c, hc, hfound⟩ := (Option.any_eq_true ..).1 hrates
  obtain ⟨hcontributors, hunits⟩ := of_decide_eq_true hfound
  obtain ⟨-, -, hcompose⟩ := compose?_rates hv
  obtain ⟨-, -, hvalid, x, hx, hleast⟩ := hcompose c hc
  rw [hx, Option.map_some, Option.some_inj] at hunits
  exact ⟨c, hc, hcontributors, hvalid, x, hx, hunits, hleast⟩

end Manifest

end Patchbay
