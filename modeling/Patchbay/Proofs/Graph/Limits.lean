import Patchbay.Gadget.Library
import Patchbay.Proofs.Aspect.Rates
import Patchbay.Proofs.Gadget.Limiter
import Patchbay.Proofs.Graph.Fit
import Patchbay.Proofs.Graph.Strand

/-! Rates on a wire, from their declaration to the limiter that values meet. However many rates are declared, and in
whatever order, the wire has one shim for them, with the least as its own. -/

namespace Patchbay

/-- The rates declared on a wire: each number `rps` in parameters that the schema of rates admits. -/
def Wire.rates (w : Wire) : Set ℚ :=
  { q | ∃ a ∈ w.aspects, a.aspect = "rate-limit" ∧ Manifest.rateLimit.validate a.params = .ok () ∧
    ∃ n, a.params.get? "rps" = some (.num n) ∧ n.value = q }

namespace Manifest

variable {m : Manifest} {v params : Json} {x : Double} {w : Wire} {group contributors : List (AspectInstance × Nat)}

theorem IsRate.exists_num (h : IsRate v x) : ∃ n, v.get? "rps" = some (.num n) ∧ n.toDouble? = some x := by
  obtain ⟨members, n, rfl, hn, hx⟩ := num_of_rps? h.rps_eq
  exact ⟨n, hn, hx⟩

theorem IsRate.toDouble?_eq {n : Number} (h : IsRate v x) (hn : v.get? "rps" = some (.num n)) :
    n.toDouble? = some x := by
  obtain ⟨n', hn', hx⟩ := h.exists_num
  cases hn.symm.trans hn'
  exact hx

theorem IsRate.rateLimitOf_eq (h : IsRate v x) (hx : 0 ≤ x.units) :
    Gadget.rateLimitOf v = .ok (Gadget.rateLimit x) := by
  have hrate : Gadget.rate? v = some x := by
    have hrps : (v.get? "rps").bind Json.asDouble? = some x := h.rps_eq
    simp [Gadget.rate?, hrps, hx]
  rw [Gadget.rateLimitOf, hrate]

/-- Rates come to a rate with the lowest `rps` of those that the schema admits; one that is alone is taken as it is. -/
theorem isRate_of_combine? (hv : ∀ a ∈ group.map (·.1), a.params.Valid)
    (hsome : ∃ a ∈ group.map (·.1), rateLimit.validate a.params = .ok ())
    (h : rateLimit.combine? group = some (params, contributors)) :
    ∃ x, IsRate params x ∧ IsLeast (admittedRps (group.map (·.1))) x.units := by
  unfold combine? at h
  split at h
  · next y =>
    cases h
    have hvalid : rateLimit.validate y.1.params = .ok () := by simpa using hsome
    obtain ⟨x, hx⟩ := exists_isRate (hv y.1 List.mem_cons_self) hvalid
    refine ⟨x, hx, ?_⟩
    rw [List.map_singleton, admittedRps_cons hx]
    simp [admittedRps]
  · obtain ⟨c, hc, he⟩ := Option.map_eq_some_iff.1 h
    cases he
    obtain ⟨taken, hsifts, -, hne⟩ := sifts_of_compose? hc
    have hmap : (group.map (·.1)).zipIdx.map (·.1) = group.map (·.1) := List.zipIdx_map_fst ..
    have hlow := hsifts.lowest (fun a ha => hv a.1 (hmap ▸ List.mem_map_of_mem ha)) hne
    rwa [hmap] at hlow

theorem combine?_of_shimOn? {naming : Naming} {lattice : Option LatticeName} {aspect : AspectId} {n : Node}
    (h : m.shimOn? naming w lattice aspect = some n) :
    ∃ contributors, m.combine? (w.instancesOf aspect) = some (n.params, contributors) := by
  unfold shimOn? at h
  split at h
  · cases h
  · obtain ⟨⟨params, contributors⟩, hc, rfl⟩ := Option.map_eq_some_iff.1 h
    exact ⟨contributors, hc⟩

end Manifest

namespace Wire

variable {w : Wire} {x : Double} {q : ℚ}

theorem mem_rates : q ∈ w.rates ↔ ∃ a ∈ w.declared "rate-limit", Manifest.rateLimit.validate a.params = .ok () ∧
    ∃ n, a.params.get? "rps" = some (.num n) ∧ n.value = q := by
  simp [rates, declared, and_assoc]

theorem exists_admittedRps (hv : ∀ a ∈ w.declared "rate-limit", a.params.Valid) (hq : q ∈ w.rates) :
    ∃ (n : Number) (x : Double), n.value = q ∧ n.toDouble? = some x ∧
      x.units ∈ Manifest.admittedRps (w.declared "rate-limit") := by
  obtain ⟨a, ha, hvalid, n, hn, rfl⟩ := mem_rates.1 hq
  obtain ⟨x, hx⟩ := Manifest.exists_isRate (hv a ha) hvalid
  exact ⟨n, x, rfl, hx.toDouble?_eq hn, a, ha, hvalid, x, hx.rps_eq, rfl⟩

theorem exists_rate {u : Int} (hv : ∀ a ∈ w.declared "rate-limit", a.params.Valid)
    (hu : u ∈ Manifest.admittedRps (w.declared "rate-limit")) :
    ∃ (n : Number) (x : Double), n.value ∈ w.rates ∧ n.toDouble? = some x ∧ x.units = u := by
  obtain ⟨a, ha, hvalid, x, hx, rfl⟩ := hu
  obtain ⟨y, hy⟩ := Manifest.exists_isRate (hv a ha) hvalid
  cases hx.symm.trans hy.rps_eq
  obtain ⟨n, hn, hnx⟩ := hy.exists_num
  exact ⟨n, x, mem_rates.2 ⟨a, ha, hvalid, n, hn, rfl⟩, hnx, rfl⟩

/-- A limiter with the lowest rate, taken as a double, keeps to all the rates as they were declared. -/
theorem keepsTo_rates (hv : ∀ a ∈ w.declared "rate-limit", a.params.Valid)
    (hx : IsLeast (Manifest.admittedRps (w.declared "rate-limit")) x.units) : (Gadget.rateLimit x).KeepsTo w.rates := by
  refine Gadget.keepsTo_rateLimit (fun k hfew q hq => ?_) fun q hq k hk hlt => ?_
  · obtain ⟨n, y, rfl, hn, hy⟩ := exists_admittedRps hv hq
    exact Gadget.lt_value_of_fewerThan hfew hn (hx.2 hy)
  · -- the least of the numbers may be another than the limiter's own, but it is the same double
    obtain ⟨n, y, rfl, hn, -⟩ := exists_admittedRps hv hq.1
    obtain ⟨n', x', hmem, hn', hx'⟩ := exists_rate hv hx.1
    refine Gadget.fewerThan_of_lt_value hlt hn ?_ hk
    rw [← hx']
    exact Number.units_le_of_value_le hn hn' (hq.2 hmem)

end Wire

namespace Strand

variable {r : AspectRegistry} {naming : Naming} {w : Wire} {lattice : Option LatticeName} {source target : NodeId}
  {s : Strand} {l : GadgetLibrary} {n : Node}

theorem exists_limiter (h : ofWire r naming w lattice source target = .ok s)
    (hr : r.get? "rate-limit" = some .rateLimit) (hsome : w.rates.Nonempty) :
    ∃ n ∈ s.shims, n.ShimOf w "rate-limit" .rateLimit := by
  obtain ⟨q, hq⟩ := hsome
  obtain ⟨a, ha, hvalid, -⟩ := Wire.mem_rates.1 hq
  obtain ⟨hin, haspect⟩ := List.mem_filter.1 ha
  have hoffers : Manifest.rateLimit.Contributes (w.declared "rate-limit") :=
    .inr ⟨a, ha, a.params, Manifest.admitInstance_null.2 ⟨hvalid, rfl⟩⟩
  obtain ⟨n, hn⟩ : ∃ n, Manifest.rateLimit.shimOn? naming w lattice "rate-limit" = some n :=
    Manifest.exists_shimOn?.2 ⟨rfl, hoffers⟩
  obtain ⟨aspects, haspects, h⟩ := ok_of_bind h
  cases h
  obtain ⟨x, hx, hid⟩ := List.mem_map.1 <|
    ((AspectRegistry.order_of_aspectsOn haspects).2.2 "rate-limit").2 ⟨a, hin, beq_iff_eq.1 haspect⟩
  have hget := AspectRegistry.get?_of_aspectsOn haspects x hx
  rw [hid, hr] at hget
  exact ⟨n, List.mem_filterMap.2 ⟨x, hx, by rw [hid, ← Option.some.inj hget, hn]⟩, (Manifest.shimOf_of_shimOn? hn).1⟩

theorem shimOn?_of_shimOf (h : ofWire r naming w lattice source target = .ok s)
    (hr : r.get? "rate-limit" = some .rateLimit) (hn : n ∈ s.shims) (hshim : n.ShimOf w "rate-limit" .rateLimit) :
    Manifest.rateLimit.shimOn? naming w lattice "rate-limit" = some n := by
  obtain ⟨aspect, m, hm, hon⟩ := shimOn?_of_mem h hn
  obtain rfl := (Manifest.shimOf_of_shimOn? hon).1.aspect_eq hshim
  cases hr.symm.trans hm
  exact hon

theorem keepsTo_of_shimOf (h : ofWire r naming w lattice source target = .ok s)
    (hr : r.get? "rate-limit" = some .rateLimit) (hl : l.factories.get? "rate-limit" = some Gadget.rateLimitOf)
    (hv : ∀ a ∈ w.aspects, a.params.Valid) (hsome : w.rates.Nonempty) (hnonneg : ∀ q ∈ w.rates, 0 ≤ q)
    (hn : n ∈ s.shims) (hshim : n.ShimOf w "rate-limit" .rateLimit) :
    ∃ g, l.create n.template n.params = .ok g ∧ g.KeepsTo w.rates := by
  have hv : ∀ a ∈ w.declared "rate-limit", a.params.Valid := fun a ha => hv a (List.mem_filter.1 ha).1
  obtain ⟨q, hq⟩ := hsome
  obtain ⟨a, ha, hvalid, -⟩ := Wire.mem_rates.1 hq
  obtain ⟨contributors, hcombine⟩ := Manifest.combine?_of_shimOn? (shimOn?_of_shimOf h hr hn hshim)
  have hgroup := w.map_instancesOf "rate-limit"
  obtain ⟨x, hx, hleast⟩ := Manifest.isRate_of_combine? (hgroup ▸ hv) (hgroup ▸ ⟨a, ha, hvalid⟩) hcombine
  rw [hgroup] at hleast
  obtain ⟨number, y, hmem, hnumber, hy⟩ := Wire.exists_rate hv hleast.1
  have hunits : 0 ≤ x.units := hy ▸ Number.units_nonneg hnumber (hnonneg _ hmem)
  have htemplate : n.template = "rate-limit" := (Option.some.inj hshim.template_eq).symm
  refine ⟨.rateLimit x, ?_, Wire.keepsTo_rates hv hleast⟩
  rw [htemplate, GadgetLibrary.create, hl]
  exact hx.rateLimitOf_eq hunits

/-- On a wire with rates, none of them negative, values meet a limiter, and whatever limiter they meet is made by the
library and keeps to the rates: of calls within one second no more let a value pass than any of the rates, or for a rate
that is no whole number than the next one above it, and that many do if there are no earlier calls. -/
theorem limiter_keepsTo (h : ofWire r naming w lattice source target = .ok s)
    (hr : r.get? "rate-limit" = some .rateLimit) (hl : l.factories.get? "rate-limit" = some Gadget.rateLimitOf)
    (hv : ∀ a ∈ w.aspects, a.params.Valid) (hsome : w.rates.Nonempty) (hnonneg : ∀ q ∈ w.rates, 0 ≤ q) :
    (∃ n ∈ s.shims, n.ShimOf w "rate-limit" .rateLimit) ∧
      ∀ n ∈ s.shims, n.ShimOf w "rate-limit" .rateLimit →
        ∃ g, l.create n.template n.params = .ok g ∧ g.KeepsTo w.rates :=
  ⟨exists_limiter h hr hsome, fun _ => keepsTo_of_shimOf h hr hl hv hsome hnonneg⟩

/-! ## Wires with rates -/

/-- A wire that is tapped and has the given `rps`. -/
def ratedWire (rps : List Json) : Wire where
  source := .ofGadget "g" "out"
  target := .ofSlot "t" "in"
  aspects := ⟨"tap", .null⟩ :: rps.map fun v => ⟨"rate-limit", .mkObj [("rps", v)]⟩

theorem valid_ratedWire {rps : List Json} (h : ∀ v ∈ rps, v.Valid) : ∀ a ∈ (ratedWire rps).aspects, a.params.Valid := by
  intro a ha
  rcases List.mem_cons.1 ha with rfl | ha
  · exact .null
  · obtain ⟨v, hv, rfl⟩ := List.mem_map.1 ha
    exact .mkObj (List.forall_mem_singleton.2 (h v hv))

theorem mem_rates_ratedWire {rps : List Json} {q : ℚ} :
    q ∈ (ratedWire rps).rates ↔ ∃ n, .num n ∈ rps ∧ n.value = q := by
  constructor
  · rintro ⟨a, ha, haspect, -, n, hn, rfl⟩
    rcases List.mem_cons.1 ha with rfl | ha
    · exact absurd haspect (by decide)
    · obtain ⟨v, hv, rfl⟩ := List.mem_map.1 ha
      obtain rfl : v = .num n := Option.some.inj hn
      exact ⟨n, hv, rfl⟩
  · rintro ⟨n, hn, rfl⟩
    exact ⟨_, List.mem_cons_of_mem _ (List.mem_map_of_mem hn), rfl,
      Manifest.validate_rateLimit_iff.2 ⟨_, .num n, rfl, rfl, rfl⟩, n, rfl, rfl⟩

/-- Two rates, and between them what is none. -/
theorem limiter_keepsTo_three :
    let w := ratedWire [.int 5, .str "fast", .int 3]
    IsLeast w.rates 3 ∧ ∃ s, ofWire .builtin .standard w none "g" "t" = .ok s ∧
      (∃ n ∈ s.shims, n.ShimOf w "rate-limit" .rateLimit) ∧
        ∀ n ∈ s.shims, n.ShimOf w "rate-limit" .rateLimit →
          ∃ g, GadgetLibrary.standard.create n.template n.params = .ok g ∧ g.KeepsTo w.rates := by
  intro w
  have hrates : ∀ q, q ∈ w.rates ↔ q = 5 ∨ q = 3 := by
    intro q
    rw [mem_rates_ratedWire]
    simp [Json.int, Number.value_int, eq_comm]
  have hv : ∀ v ∈ [Json.int 5, .str "fast", .int 3], v.Valid := by
    simp only [List.forall_mem_cons]
    exact ⟨.int (by decide), .str "fast", .int (by decide), List.forall_mem_nil _⟩
  have hleast : IsLeast w.rates 3 := by
    refine ⟨(hrates 3).2 (.inr rfl), fun q hq => ?_⟩
    rcases (hrates q).1 hq with rfl | rfl <;> norm_num
  obtain ⟨s, hs⟩ := exists_ofWire_iff.2 (show w.Fits .builtin by decide +kernel)
  exact ⟨hleast, s, hs, limiter_keepsTo hs rfl rfl (valid_ratedWire hv) hleast.nonempty
    fun q hq => (by norm_num : (0 : ℚ) ≤ 3).trans (hleast.2 hq)⟩

def half : Double := ⟨false, Nat.pow 2 1073, by decide +kernel⟩

theorem value_half : (Number.float half).value = 1 / 2 := by
  have hone : (Double.one : Int) = 2 * half.units := by decide +kernel
  have hcast : (Double.one : ℚ) = 2 * half.units := by exact_mod_cast hone
  rw [Number.value, Number.units, div_eq_div_iff Number.one_pos.ne' two_ne_zero, hcast]
  ring

/-- At half a value a second every first value passes. -/
theorem half_exceeded :
    let w := ratedWire [.num (.float half)]
    IsLeast w.rates (1 / 2) ∧ ∃ s n g, ofWire .builtin .standard w none "g" "t" = .ok s ∧ n ∈ s.shims ∧
      n.ShimOf w "rate-limit" .rateLimit ∧ GadgetLibrary.standard.create n.template n.params = .ok g ∧
        ∀ call, (1 / 2 : ℚ) < g.emissions "out" [] [call] := by
  intro w
  have hleast : IsLeast w.rates (1 / 2) := by
    refine ⟨mem_rates_ratedWire.2 ⟨_, List.mem_singleton_self _, value_half⟩, fun q hq => ?_⟩
    obtain ⟨n, hn, rfl⟩ := mem_rates_ratedWire.1 hq
    obtain rfl : n = .float half := Json.num.inj (List.mem_singleton.1 hn)
    exact value_half.ge
  have hnonneg : ∀ q ∈ w.rates, 0 ≤ q := fun q hq => (by norm_num : (0 : ℚ) ≤ 1 / 2).trans (hleast.2 hq)
  obtain ⟨s, hs⟩ := exists_ofWire_iff.2 (show w.Fits .builtin by decide +kernel)
  obtain ⟨n, hn, hshim⟩ := exists_limiter hs rfl hleast.nonempty
  have hv := valid_ratedWire (List.forall_mem_singleton.2 (.float half))
  obtain ⟨g, hg, hkeeps⟩ := keepsTo_of_shimOf (l := .standard) hs rfl rfl hv hleast.nonempty hnonneg hn hshim
  refine ⟨hleast, s, n, g, hs, hn, hshim, hg, fun call => ?_⟩
  have hone : Gadget.WithinSecond [call] := by
    simp [Gadget.WithinSecond, Gadget.second]
  have hceil : ⌈(1 / 2 : ℚ)⌉₊ = 1 := by norm_num [Nat.ceil_eq_iff]
  rw [hkeeps.reached [call] hone (by norm_num) _ hleast, hceil]
  norm_num

end Strand

end Patchbay
