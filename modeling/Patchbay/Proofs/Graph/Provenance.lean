import Patchbay.Proofs.Aspect.Folding
import Patchbay.Proofs.Graph.Composition

/-! Where the shims of a graph stem from. An instance is counted among those of its aspect when they are composed, and
among all that the wire declares when a shim tells its origin. -/

namespace Patchbay

/-! ## Two ways to count -/

/-- The `k`th instance of an aspect on a wire is the one that is declared there at position `i`. -/
structure Wire.Declares (w : Wire) (aspect : AspectId) (k i : Nat) (a : AspectInstance) : Prop where
  declared_at : w.aspects[i]? = some a
  aspect_eq : a.aspect = aspect
  before : (w.aspects.take i).countP (fun a => a.aspect == aspect) = k

theorem countP_of_getElem?_filter {α : Type} {p : α → Bool} {l : List α} {n k : Nat} {x : α × Nat}
    (h : ((l.zipIdx n).filter fun x => p x.1)[k]? = some x) : ∃ i, x.2 = n + i ∧ (l.take i).countP p = k := by
  induction l generalizing n k with
  | nil => cases h
  | cons y rest ih =>
    rw [List.zipIdx_cons, List.filter_cons] at h
    cases hy : p y with
    | true =>
      simp only [hy, if_true] at h
      cases k with
      | zero =>
        cases h
        exact ⟨0, rfl, rfl⟩
      | succ k =>
        obtain ⟨i, hi, hcount⟩ := ih h
        refine ⟨i + 1, by omega, ?_⟩
        rw [List.take_succ_cons, List.countP_cons_of_pos hy, hcount]
    | false =>
      simp only [hy, Bool.false_eq_true, if_false] at h
      obtain ⟨i, hi, hcount⟩ := ih h
      refine ⟨i + 1, by omega, ?_⟩
      rw [List.take_succ_cons, List.countP_cons_of_neg (by simp [hy]), hcount]

theorem Wire.declares_of_instancesOf {w : Wire} {aspect : AspectId} {k : Nat} {x : AspectInstance × Nat}
    (h : (w.instancesOf aspect)[k]? = some x) : w.Declares aspect k x.2 x.1 := by
  obtain ⟨hat, haspect⟩ := mem_instancesOf.1 (List.mem_of_getElem? h)
  obtain ⟨i, hi, hcount⟩ := countP_of_getElem?_filter (p := fun a : AspectInstance => a.aspect == aspect) h
  rw [Nat.zero_add] at hi
  exact ⟨hat, haspect, hi ▸ hcount⟩

/-! ## Shims -/

/-- A node tells by its origins which instances of an aspect on a wire went into it: those that contribute when they are
composed, each at its position on the wire. One that is alone there went into it as it is declared. -/
structure Node.Traces (n : Node) (w : Wire) (aspect : AspectId) (m : Manifest) : Prop where
  origins : ∀ c, m.compose? (w.declared aspect) = some c →
    List.Forall₂ (fun k x => ∃ i a, w.Declares aspect k i a ∧ x = .aspect aspect w.id i a.params)
      c.contributors n.origins
  composed : 1 < (w.declared aspect).length → ∃ c, m.compose? (w.declared aspect) = some c ∧ n.params = c.params
  lone : ∀ a, w.declared aspect = [a] → n.params = a.params

namespace Manifest

variable {m : Manifest}

theorem contributors_of_lone {a : AspectInstance} {c : Composition} (h : m.compose? [a] = some c) :
    c.contributors = [0] := by
  obtain ⟨taken, dropped, q, hsifts⟩ := m.exists_sifts .null [a].zipIdx
  rw [hsifts.compose?_eq] at h
  cases hsifts with
  | take _ hrest =>
    cases hrest
    cases h
    rfl
  | drop _ hrest =>
    cases hrest
    cases h

/-- Each contributor is found in the group. -/
theorem forall₂_contributors {group : List (AspectInstance × Nat)} {c : Composition}
    (h : m.compose? (group.map (·.1)) = some c) :
    List.Forall₂ (fun k x => group[k]? = some x) c.contributors (c.contributors.filterMap fun i => group[i]?) := by
  have hin : ∀ k ∈ c.contributors, (group[k]?).isSome := by
    intro k hk
    have hlt := (contributors_of_compose? h).2 k hk
    rw [List.length_map] at hlt
    rw [List.getElem?_eq_getElem hlt, Option.isSome_some]
  have hfound := forall₂_filterMap (R := fun k x => group[k]? = some x) (l := c.contributors) fun _ _ _ hx => hx
  rwa [List.filter_eq_self.2 hin] at hfound

theorem traces_of_shimOn? {naming : Naming} {w : Wire} {lattice : Option LatticeName} {aspect : AspectId} {n : Node}
    (h : m.shimOn? naming w lattice aspect = some n) : n.Traces w aspect m := by
  unfold shimOn? at h
  split at h
  · cases h
  next joinPoint template hk =>
  obtain ⟨⟨params, contributors⟩, hc, rfl⟩ := Option.map_eq_some_iff.1 h
  have hdeclared := w.map_instancesOf aspect
  have hdeclares := @Wire.declares_of_instancesOf w aspect
  generalize w.instancesOf aspect = group at hc hdeclared hdeclares
  unfold combine? at hc
  split at hc
  · next x =>
    cases hc
    refine ⟨fun c hc => ?_, fun hlt => ?_, fun a ha => ?_⟩
    · rw [contributors_of_lone (hdeclared ▸ hc)]
      exact .cons ⟨x.2, x.1, hdeclares rfl, rfl⟩ .nil
    · simp [← hdeclared] at hlt
    · rw [← List.head_eq_of_cons_eq (hdeclared.trans ha)]
  · next hno =>
    obtain ⟨c, hcompose, he⟩ := Option.map_eq_some_iff.1 hc
    cases he
    have hfound := forall₂_contributors hcompose
    rw [hdeclared] at hcompose
    refine ⟨fun c' hc' => ?_, fun _ => ⟨c, hcompose, rfl⟩, fun a ha => ?_⟩
    · obtain rfl : c = c' := Option.some.inj (hcompose.symm.trans hc')
      rw [List.forall₂_map_right_iff]
      exact hfound.imp fun k x hx => ⟨x.2, x.1, hdeclares hx, rfl⟩
    · obtain ⟨x, rfl, -⟩ := List.map_eq_singleton_iff.1 (hdeclared.trans ha)
      exact absurd rfl (hno x)

end Manifest

/-! ## Graphs -/

namespace Board

variable {b : Board} {r : AspectRegistry} {naming : Naming} {g : Graph}

/-- Composing tells instances apart into those that contribute and those that leave no trace, whatever the manifest. The
shims of a graph stem from the ones that contribute, and tell their positions on the wire. -/
theorem realize_traces :
    (∀ (m : Manifest) instances c, m.compose? instances = some c → c.Sorts m instances) ∧
      (b.realize r naming = .ok g → ∀ id n, g.nodes.get? id = some n → n.kind = .shim →
        ∃ w ∈ b.wires, ∃ aspect m, r.get? aspect = some m ∧ n.ShimOf w aspect m ∧ n.Traces w aspect m) := by
  refine ⟨fun m instances c => Manifest.sorts_of_compose?, fun h id n hn hk => ?_⟩
  rcases (stem_of_node h hn).2 with hseat | ⟨w, s, hs, hshim⟩
  · rw [hseat.kind_eq] at hk
    cases hk
  · obtain ⟨_, _, _, -, -, hstrand⟩ := hs.ofWire
    obtain ⟨aspect, m, hm, hon⟩ := Strand.shimOn?_of_mem hstrand hshim
    exact ⟨w, hs.1, aspect, m, hm, (Manifest.shimOf_of_shimOn? hon).1, Manifest.traces_of_shimOn? hon⟩

/-- The second of three rates is none: the shim stems from the two others. -/
theorem realize_traces_rates :
    let rates := [rated [("rps", .int 5)], rated [("rps", .str "fast")], rated [("rps", .int 3)]]
    ∃ c g id n, Manifest.rateLimit.compose? rates = some c ∧ c.contributors = [0, 2] ∧ c.Sorts Manifest.rateLimit rates ∧
      (ratedBoard rates).realize .builtin .standard = .ok g ∧ g.nodes.get? id = some n ∧ n.kind = .shim ∧
      n.origins.length = 2 ∧ ∃ w ∈ (ratedBoard rates).wires, ∃ aspect m,
        AspectRegistry.builtin.get? aspect = some m ∧ n.ShimOf w aspect m ∧ n.Traces w aspect m := by
  intro rates
  have hrates : (Manifest.rateLimit.compose? rates).any (fun c => c.contributors = [0, 2]) = true := by decide +kernel
  have hgraph : ((ratedBoard rates).realize .builtin .standard).toOption.any (fun g =>
      g.nodes.entries.any fun x => x.2.kind = .shim ∧ x.2.origins.length = 2) = true := by decide +kernel
  obtain ⟨c, hc, hcontributors⟩ := (Option.any_eq_true ..).1 hrates
  obtain ⟨g, hg, hany⟩ := (Option.any_eq_true ..).1 hgraph
  obtain ⟨⟨id, n⟩, hn, hshim⟩ := List.any_eq_true.1 hany
  obtain ⟨hk, horigins⟩ := of_decide_eq_true hshim
  have hget := Dict.get?_eq_some_iff.2 hn
  obtain ⟨hsorts, htraces⟩ := @realize_traces (ratedBoard rates) .builtin .standard g
  exact ⟨c, g, id, n, hc, of_decide_eq_true hcontributors, hsorts _ _ c hc, toOption_eq_some.1 hg, hget, hk, horigins,
    htraces (toOption_eq_some.1 hg) id n hget hk⟩

end Board

end Patchbay
