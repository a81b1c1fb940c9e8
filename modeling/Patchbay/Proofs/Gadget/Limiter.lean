import Patchbay.Gadget.Shims
import Patchbay.Proofs.Number.Value
import Mathlib.Data.Rat.Floor
import Mathlib.Order.Bounds.Basic

/-! How many values a limiter lets pass. Those that passed within a second are all still in its window, so that they are
never more than the first number that is not less than the rate. -/

namespace Patchbay

/-- A reply has a value for a pin. -/
def Reply.gives (r : Reply) (pin : PinName) : Bool :=
  match r.result with
  | .ok outputs => outputs.contains pin
  | .error _ => false

namespace Gadget

/-- What a gadget answers to calls that are made one after another, behind earlier ones. -/
def replies (g : Gadget) : List GadgetCall → List GadgetCall → List Reply
  | _, [] => []
  | earlier, call :: rest => g.process earlier call :: g.replies (earlier ++ [call]) rest

/-- How many of the calls give a value on a pin. -/
def emissions (g : Gadget) (pin : PinName) (earlier calls : List GadgetCall) : Nat :=
  (g.replies earlier calls).countP fun r => r.gives pin

def WithinSecond (calls : List GadgetCall) : Prop := ∀ c ∈ calls, ∀ c' ∈ calls, c.time - c'.time < second

/-- Of calls within one second, whatever calls came before, no more give a value than each of the rates, rounded up; and
if none came before, all give one until there are as many as the least rate, rounded up. -/
structure KeepsTo (g : Gadget) (rates : Set ℚ) : Prop where
  bounded : ∀ earlier calls, WithinSecond calls → ∀ q ∈ rates, g.emissions "out" earlier calls ≤ ⌈q⌉₊
  reached : ∀ calls, WithinSecond calls → calls.length ≤ 2 ^ 53 → ∀ q, IsLeast rates q →
    g.emissions "out" [] calls = min calls.length ⌈q⌉₊

theorem emissions_cons (g : Gadget) (pin : PinName) (earlier rest : List GadgetCall) (call : GadgetCall) :
    g.emissions pin earlier (call :: rest) =
      g.emissions pin (earlier ++ [call]) rest + if (g.process earlier call).gives pin then 1 else 0 := by
  rw [emissions, replies, List.countP_cons]
  rfl

/-! ## The window -/

variable {rate : Double} {earlier calls rest : List GadgetCall} {call : GadgetCall} {old recent : List Instant}
  {now : Instant} {cap : Nat}

theorem windowAfter_concat (rate : Double) (times : List Instant) (now : Instant) :
    windowAfter rate (times ++ [now]) = (letPass rate (windowAfter rate times) now).2 := by
  rw [windowAfter, windowAfter, List.foldl_append, List.foldl_cons, List.foldl_nil]

/-- Only what stands in front of the recent instants is forgotten. -/
theorem dropWhile_window (hrecent : ∀ t ∈ recent, now - t < second) :
    (old ++ recent).dropWhile (fun t => decide (second ≤ now - t)) =
      old.dropWhile (fun t => decide (second ≤ now - t)) ++ recent := by
  have hkept : recent.dropWhile (fun t => decide (second ≤ now - t)) = recent := by
    cases recent with
    | nil => rfl
    | cons t rest =>
      rw [List.dropWhile_cons_of_neg]
      simpa using hrecent t List.mem_cons_self
  rw [List.dropWhile_append, hkept]
  split
  · next hempty => rw [List.isEmpty_iff.1 hempty, List.nil_append]
  · rfl

theorem gives_rateLimit : ((rateLimit rate).process earlier call).gives "out" =
    (letPass rate (windowAfter rate (earlier.map (·.time))) call.time).1 := by
  simp only [Reply.gives, rateLimit]
  cases (letPass rate (windowAfter rate (earlier.map (·.time))) call.time).1 <;> rfl

/-- The recent instants stand last in the window, and when the calls are made none of them is a second ago. -/
structure Lately (rate : Double) (earlier : List GadgetCall) (old recent : List Instant) (calls : List GadgetCall) :
    Prop where
  window_eq : windowAfter rate (earlier.map (·.time)) = old ++ recent
  lasts : ∀ t ∈ recent, ∀ c ∈ calls, c.time - t < second
  within : WithinSecond calls

theorem WithinSecond.tail (h : WithinSecond (call :: rest)) : WithinSecond rest :=
  fun c hc c' hc' => h c (List.mem_cons_of_mem call hc) c' (List.mem_cons_of_mem call hc')

/-- A value passes and its instant is recent from then on, or there are too many instants in the window. -/
theorem Lately.step (h : Lately rate earlier old recent (call :: rest)) : ∃ old', (old = [] → old' = []) ∧
    ((fewerThan (old' ++ recent).length rate = true ∧ ((rateLimit rate).process earlier call).gives "out" = true ∧
        Lately rate (earlier ++ [call]) old' (recent ++ [call.time]) rest) ∨
      (fewerThan (old' ++ recent).length rate = false ∧ ((rateLimit rate).process earlier call).gives "out" = false ∧
        Lately rate (earlier ++ [call]) old' recent rest)) := by
  let old' := old.dropWhile fun t => decide (second ≤ call.time - t)
  have hlast : ∀ t ∈ recent, ∀ c ∈ rest, c.time - t < second :=
    fun t ht c hc => h.lasts t ht c (List.mem_cons_of_mem call hc)
  have hpass : letPass rate (windowAfter rate (earlier.map (·.time))) call.time =
      if fewerThan (old' ++ recent).length rate then (true, old' ++ recent ++ [call.time])
      else (false, old' ++ recent) := by
    rw [h.window_eq, letPass, dropWhile_window fun t ht => h.lasts t ht call List.mem_cons_self]
  have hwindow : windowAfter rate ((earlier ++ [call]).map (·.time)) =
      (letPass rate (windowAfter rate (earlier.map (·.time))) call.time).2 := by
    rw [List.map_append, List.map_singleton, windowAfter_concat]
  refine ⟨old', fun hold => by simp only [old', hold, List.dropWhile_nil], ?_⟩
  rw [gives_rateLimit, hpass]
  rw [hpass] at hwindow
  cases hfew : fewerThan (old' ++ recent).length rate with
  | true =>
    rw [hfew, if_pos rfl, List.append_assoc] at hwindow
    refine .inl ⟨rfl, rfl, hwindow, fun t ht => ?_, h.within.tail⟩
    rcases List.mem_append.1 ht with ht | ht
    · exact hlast t ht
    · obtain rfl := List.mem_singleton.1 ht
      exact fun c hc => h.within c (List.mem_cons_of_mem call hc) call List.mem_cons_self
  | false =>
    rw [hfew, if_neg Bool.false_ne_true] at hwindow
    exact .inr ⟨rfl, rfl, hwindow, hlast, h.within.tail⟩

/-! ## Counts and rates -/

variable {n : Number} {x : Double} {k : Nat}

theorem lt_value_of_fewerThan (h : fewerThan k rate = true) (hn : n.toDouble? = some x) (hle : rate.units ≤ x.units) :
    (k : ℚ) < n.value := by
  obtain ⟨count, hcount, hless⟩ := (Option.any_eq_true ..).1 h
  have hlt : (Number.int k).value < n.value :=
    Number.value_lt_of_units_lt hcount hn (lt_of_lt_of_le (of_decide_eq_true hless) hle)
  rwa [Number.value_int, Int.cast_natCast] at hlt

theorem fewerThan_of_lt_value (h : (k : ℚ) < n.value) (hn : n.toDouble? = some x) (hle : x.units ≤ rate.units)
    (hk : k < 2 ^ 53) : fewerThan k rate = true := by
  obtain ⟨count, hcount⟩ := Double.exists_ofInt? (i := k) (by omega)
  refine (Option.any_eq_true ..).2 ⟨count, hcount, decide_eq_true ?_⟩
  exact lt_of_lt_of_le (Number.units_lt_of_lt_value hcount hn hk h) hle

/-! ## Runs of calls -/

theorem Lately.emissions_le (h : Lately rate earlier old recent calls) (hcap : ∀ k, fewerThan k rate = true → k < cap)
    (hle : recent.length ≤ cap) : recent.length + (rateLimit rate).emissions "out" earlier calls ≤ cap := by
  induction calls generalizing earlier old recent with
  | nil => exact hle
  | cons call rest ih =>
    rw [emissions_cons]
    obtain ⟨old', -, ⟨hfew, hgives, hnext⟩ | ⟨-, hgives, hnext⟩⟩ := h.step
    · have hlt := hcap _ hfew
      rw [List.length_append] at hlt
      have hrest := ih hnext (by rw [List.length_append, List.length_singleton]; omega)
      rw [List.length_append, List.length_singleton] at hrest
      rw [hgives, if_pos rfl]
      omega
    · have hrest := ih hnext hle
      rw [hgives, if_neg Bool.false_ne_true]
      omega

theorem Lately.emissions_eq (h : Lately rate earlier [] recent calls)
    (hcap : ∀ k < 2 ^ 53, fewerThan k rate = true ↔ k < cap) (hle : recent.length + calls.length ≤ 2 ^ 53) :
    (rateLimit rate).emissions "out" earlier calls = min calls.length (cap - recent.length) := by
  induction calls generalizing earlier recent with
  | nil => exact (Nat.zero_min _).symm
  | cons call rest ih =>
    rw [List.length_cons] at hle
    rw [emissions_cons, List.length_cons]
    obtain ⟨old', hold, hstep⟩ := h.step
    obtain rfl := hold rfl
    have hfew : fewerThan recent.length rate = true ↔ recent.length < cap := hcap _ (by omega)
    rw [List.nil_append] at hstep
    rcases hstep with ⟨hpass, hgives, hnext⟩ | ⟨hstop, hgives, hnext⟩
    · have hlt := hfew.1 hpass
      have hlength : (recent ++ [call.time]).length = recent.length + 1 := List.length_append
      rw [ih hnext (by omega), hgives, if_pos rfl, hlength]
      omega
    · have hge : ¬recent.length < cap := fun hlt => by
        rw [hfew.2 hlt] at hstop
        cases hstop
      rw [ih hnext (by omega), hgives, if_neg Bool.false_ne_true]
      omega

theorem keepsTo_rateLimit {rates : Set ℚ} (hbound : ∀ k : Nat, fewerThan k rate = true → ∀ q ∈ rates, (k : ℚ) < q)
    (hreach : ∀ q, IsLeast rates q → ∀ k : Nat, k < 2 ^ 53 → (k : ℚ) < q → fewerThan k rate = true) :
    (rateLimit rate).KeepsTo rates where
  bounded earlier calls hcalls q hq := by
    have hstart : Lately rate earlier (windowAfter rate (earlier.map (·.time))) [] calls :=
      ⟨(List.append_nil _).symm, nofun, hcalls⟩
    simpa using hstart.emissions_le (fun k hk => Nat.lt_ceil.2 (hbound k hk q hq)) (Nat.zero_le _)
  reached calls hcalls hlength q hq := by
    have hstart : Lately rate [] [] [] calls := ⟨rfl, nofun, hcalls⟩
    have hcap : ∀ k < 2 ^ 53, fewerThan k rate = true ↔ k < ⌈q⌉₊ := fun k hk =>
      ⟨fun hfew => Nat.lt_ceil.2 (hbound k hfew q hq.1), fun hlt => hreach q hq k hk (Nat.lt_ceil.1 hlt)⟩
    simpa using hstart.emissions_eq hcap (by simpa using hlength)

end Gadget

end Patchbay
