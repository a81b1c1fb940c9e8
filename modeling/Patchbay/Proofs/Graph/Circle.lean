import Patchbay.Graph.Chain
import Patchbay.Proofs.Dict
import Mathlib.Logic.Relation

/-! Following a wire in a graph of any shape, from node to node and with no record of where the walk has been. It comes
to an end unless the shims that it meets lead round in a circle, and if it does it meets each of them once. -/

namespace Patchbay.Graph

open Relation

/-- The shims met from a node on, if the walk is over after so many steps. -/
def follow (g : Graph) (wire : WireId) : Nat → NodeId → Option (List Node)
  | 0, _ => none
  | steps + 1, node =>
    match g.nodes.get? node with
    | none => some []
    | some n =>
      if n.kind = .gadget then some []
      else
        match g.next? wire node with
        | none => some [n]
        | some m => (g.follow wire steps m).map (n :: ·)

/-- The shims on a wire, if following it is over after so many steps. -/
def shimsWithin (g : Graph) (wire : WireId) (steps : Nat) : Option (List Node) :=
  match g.chainStart? wire with
  | none => some []
  | some start => g.follow wire steps start

def IsShim (g : Graph) (id : NodeId) (n : Node) : Prop := g.nodes.get? id = some n ∧ n.kind = .shim

/-- The walk goes on from one node to another. -/
def Onward (g : Graph) (wire : WireId) (a b : NodeId) : Prop := (∃ n, g.IsShim a n) ∧ g.next? wire a = some b

/-- From where the wire starts, its shims lead round in a circle. -/
def Circular (g : Graph) (wire : WireId) : Prop :=
  ∃ start id, g.chainStart? wire = some start ∧ ReflTransGen (g.Onward wire) start id ∧ TransGen (g.Onward wire) id id

variable {g : Graph} {wire : WireId} {a b id : NodeId} {n : Node} {steps steps' : Nat} {unseen : List NodeId}
  {shims : List Node}

theorem IsShim.ne_gadget (h : g.IsShim id n) : ¬n.kind = .gadget := by
  rw [h.2]
  nofun

theorem isShim_of_ne_gadget (hn : g.nodes.get? id = some n) (hk : ¬n.kind = .gadget) : g.IsShim id n := by
  refine ⟨hn, ?_⟩
  cases hkind : n.kind with
  | gadget => exact absurd hkind hk
  | shim => rfl

/-! ## Steps of the walk -/

theorem follow_succ (hn : g.IsShim a n) (hb : g.next? wire a = some b) :
    g.follow wire (steps + 1) a = (g.follow wire steps b).map (n :: ·) := by
  simp only [follow, hn.1, hn.ne_gadget, hb, if_false]

theorem follow_mono (h : g.follow wire steps a = some shims) (hle : steps ≤ steps') :
    g.follow wire steps' a = some shims := by
  induction steps generalizing a steps' shims with
  | zero => cases h
  | succ k ih =>
    obtain ⟨k', rfl⟩ := Nat.exists_eq_succ_of_ne_zero (Nat.ne_of_gt (Nat.lt_of_lt_of_le k.succ_pos hle))
    unfold follow at h ⊢
    split
    · next hn => simpa only [hn] using h
    · next n hn =>
      simp only [hn] at h
      split
      · next hk => simpa only [hk, if_true] using h
      · next hk =>
        simp only [hk, if_false] at h
        split
        · next hm => simpa only [hm] using h
        · next m hm =>
          simp only [hm] at h
          obtain ⟨rest, hrest, rfl⟩ := Option.map_eq_some_iff.1 h
          rw [ih hrest (Nat.le_of_succ_le_succ hle), Option.map_some]

theorem exists_follow_of_onward (h : g.Onward wire a b) (hs : ∃ shims, g.follow wire steps a = some shims) :
    ∃ k < steps, ∃ shims, g.follow wire k b = some shims := by
  obtain ⟨⟨n, hn⟩, hb⟩ := h
  obtain ⟨shims, hs⟩ := hs
  cases steps with
  | zero => cases hs
  | succ k =>
    rw [follow_succ hn hb] at hs
    obtain ⟨rest, hrest, -⟩ := Option.map_eq_some_iff.1 hs
    exact ⟨k, k.lt_succ_self, rest, hrest⟩

theorem exists_follow_of_transGen (h : TransGen (g.Onward wire) a b)
    (hs : ∃ shims, g.follow wire steps a = some shims) : ∃ k < steps, ∃ shims, g.follow wire k b = some shims := by
  induction h with
  | single h => exact exists_follow_of_onward h hs
  | tail _ h ih =>
    obtain ⟨k, hk, hs⟩ := ih
    obtain ⟨k', hk', hs⟩ := exists_follow_of_onward h hs
    exact ⟨k', Nat.lt_trans hk' hk, hs⟩

theorem follow_circle (h : TransGen (g.Onward wire) a a) (steps : Nat) :
    ¬∃ shims, g.follow wire steps a = some shims := by
  induction steps using Nat.strongRecOn with
  | _ steps ih =>
    intro hs
    obtain ⟨k, hk, hs⟩ := exists_follow_of_transGen h hs
    exact ih k hk hs

theorem Circular.shimsWithin_eq_none (h : g.Circular wire) (steps : Nat) : g.shimsWithin wire steps = none := by
  obtain ⟨start, id, hstart, hto, hround⟩ := h
  rw [shimsWithin, hstart]
  refine Option.not_isSome_iff_eq_none.1 fun hs => ?_
  obtain ⟨k, hk⟩ : ∃ k, ∃ shims, g.follow wire k id = some shims := by
    rcases reflTransGen_iff_eq_or_transGen.1 hto with rfl | hto
    · exact ⟨steps, Option.isSome_iff_exists.1 hs⟩
    · obtain ⟨k, -, hk⟩ := exists_follow_of_transGen hto (Option.isSome_iff_exists.1 hs)
      exact ⟨k, hk⟩
  exact follow_circle hround k hk

/-! ## The walk that keeps a record -/

/-- Where the walk with a record gives shims, the one without is over in as many steps as there were nodes to meet, and
the shims are different nodes. -/
theorem follow_of_chainFrom? (hu : unseen.Nodup) (h : g.chainFrom? wire unseen a = some shims) :
    g.follow wire (unseen.length + 1) a = some shims ∧
      ∃ ids, ids.Nodup ∧ (∀ id ∈ ids, id ∈ unseen) ∧ List.Forall₂ g.IsShim ids shims := by
  fun_induction chainFrom? g wire unseen a generalizing shims with
  | case1 unseen a hn =>
    cases h
    exact ⟨by simp only [follow, hn], [], .nil, nofun, .nil⟩
  | case2 unseen a n hn hk =>
    cases h
    exact ⟨by simp only [follow, hn, hk, if_true], [], .nil, nofun, .nil⟩
  | case3 unseen a n hn hk ha hm =>
    cases h
    refine ⟨by simp only [follow, hn, hk, hm, if_false], [a], List.nodup_singleton a, ?_, ?_⟩
    · exact List.forall_mem_singleton.2 ha
    · exact .cons (isShim_of_ne_gadget hn hk) .nil
  | case4 unseen a n hn hk ha m hm _ ih =>
    have hshim := isShim_of_ne_gadget hn hk
    obtain ⟨rest, hrest, rfl⟩ := Option.map_eq_some_iff.1 h
    obtain ⟨hfollow, ids, hnodup, hsub, hall⟩ := ih (hu.erase a) hrest
    have hnew : a ∉ ids := fun hmem => hu.not_mem_erase (hsub a hmem)
    refine ⟨?_, a :: ids, List.nodup_cons.2 ⟨hnew, hnodup⟩, ?_, .cons hshim hall⟩
    · rw [follow_succ hshim hm, ← List.length_erase_add_one ha, hfollow, Option.map_some]
    · exact List.forall_mem_cons.2 ⟨ha, fun id hid => List.mem_of_mem_erase (hsub id hid)⟩
  | case5 unseen a n hn hk ha => cases h

/-- Where it gives none, it meets a shim that is not to be met, or the shims lead round in a circle. -/
theorem circle_of_chainFrom? (h : g.chainFrom? wire unseen a = none) :
    ∃ id n, ReflTransGen (g.Onward wire) a id ∧ g.IsShim id n ∧ (id ∉ unseen ∨ TransGen (g.Onward wire) id id) := by
  fun_induction chainFrom? g wire unseen a with
  | case1 | case2 | case3 => cases h
  | case4 unseen a n hn hk ha m hm _ ih =>
    have hon : g.Onward wire a m := ⟨⟨n, isShim_of_ne_gadget hn hk⟩, hm⟩
    obtain ⟨id, n', hto, hshim, hid | hround⟩ := ih (Option.map_eq_none_iff.1 h)
    · by_cases he : id = a
      · subst he
        exact ⟨id, n', .refl, hshim, .inr (TransGen.head' hon hto)⟩
      · exact ⟨id, n', .head hon hto, hshim, .inl fun hmem => hid ((List.mem_erase_of_ne he).2 hmem)⟩
    · exact ⟨id, n', .head hon hto, hshim, .inr hround⟩
  | case5 unseen a n hn hk ha => exact ⟨a, n, .refl, isShim_of_ne_gadget hn hk, .inl ha⟩

theorem circular_of_shimsOn? (h : g.shimsOn? wire = none) : g.Circular wire := by
  unfold shimsOn? at h
  split at h
  · cases h
  next start hstart =>
  obtain ⟨id, n, hto, hshim, hid⟩ := circle_of_chainFrom? h
  exact ⟨start, id, hstart, hto, hid.resolve_left fun hnot => hnot (Dict.mem_keys_of_get? hshim.1)⟩

theorem shimsWithin_of_shimsOn? (h : g.shimsOn? wire = some shims) :
    g.shimsWithin wire (g.nodes.size + 1) = some shims ∧ ∃ ids, ids.Nodup ∧ List.Forall₂ g.IsShim ids shims := by
  have hsize : g.nodes.keys.length = g.nodes.size := List.length_map _
  unfold shimsOn? at h
  unfold shimsWithin
  cases hstart : g.chainStart? wire with
  | none =>
    simp only [hstart] at h
    cases h
    exact ⟨rfl, [], .nil, .nil⟩
  | some start =>
    simp only [hstart] at h
    obtain ⟨hfollow, ids, hnodup, -, hall⟩ := follow_of_chainFrom? g.nodes.nodup_keys h
    exact ⟨hsize ▸ hfollow, ids, hnodup, hall⟩

theorem shimsWithin_mono (h : g.shimsWithin wire steps = some shims) (hle : steps ≤ steps') :
    g.shimsWithin wire steps' = some shims := by
  unfold shimsWithin at h ⊢
  split
  · next hstart => simpa only [hstart] using h
  · next start hstart =>
    simp only [hstart] at h
    exact follow_mono h hle

theorem shimsWithin_eq_shimsOn? (h : g.nodes.size < steps) : g.shimsWithin wire steps = g.shimsOn? wire := by
  cases hs : g.shimsOn? wire with
  | none => exact (circular_of_shimsOn? hs).shimsWithin_eq_none steps
  | some shims => exact shimsWithin_mono (shimsWithin_of_shimsOn? hs).1 h

/-- Following a wire in any graph whatsoever is over after one step more than there are nodes, or never. In the first case
it gives the shims on the wire, which are different nodes; in the second the shims lead round in a circle. -/
theorem follow_wire (g : Graph) (wire : WireId) :
    (∀ steps, g.nodes.size < steps → g.shimsWithin wire steps = g.shimsOn? wire) ∧
      (∀ shims, g.shimsOn? wire = some shims ↔ ∃ steps, g.shimsWithin wire steps = some shims) ∧
      (∀ shims, g.shimsOn? wire = some shims → ∃ ids, ids.Nodup ∧ List.Forall₂ g.IsShim ids shims) ∧
      (g.Circular wire ↔ ∀ steps, g.shimsWithin wire steps = none) := by
  have hover : ∀ steps, g.nodes.size < steps → g.shimsWithin wire steps = g.shimsOn? wire :=
    fun _ => shimsWithin_eq_shimsOn?
  have hlast := hover (g.nodes.size + 1) g.nodes.size.lt_succ_self
  refine ⟨hover, fun shims => ⟨fun h => ⟨_, hlast.trans h⟩, ?_⟩, fun _ h => (shimsWithin_of_shimsOn? h).2,
    ⟨Circular.shimsWithin_eq_none, fun h => circular_of_shimsOn? (hlast.symm.trans (h _))⟩⟩
  rintro ⟨steps, h⟩
  have hmore := shimsWithin_mono h (Nat.le_add_right steps (g.nodes.size + 1))
  rwa [hover _ (by omega)] at hmore

/-- A gadget, from which a wire leads to shims over the given edges. -/
def wired (shims : List NodeId) (edges : List (EdgeId × NodeId × NodeId)) : Graph where
  nodes := .ofList <| ("g", { id := "g", kind := .gadget, template := "counter", pins := ∅, origins := [] }) ::
    shims.map fun id => (id, { id, kind := .shim, template := "tap", pins := ∅, origins := [] })
  edges := .ofList <| edges.map fun (id, source, target) =>
    (id, { id, wire := "w", source, sourcePin := "out", target, targetPin := "in" })

/-- Two shims, the second of which leads nowhere. -/
theorem follow_wire_chain :
    let g := wired ["s", "t"] [("e1", "g", "t"), ("e2", "t", "s")]
    g.shimsWithin "w" 4 = g.shimsOn? "w" ∧ ∃ shims, g.shimsOn? "w" = some shims ∧ shims.map (·.id) = ["t", "s"] ∧
      ∃ ids, ids.Nodup ∧ List.Forall₂ g.IsShim ids shims := by
  intro g
  have hmet : (g.shimsWithin "w" 4).any (fun shims => shims.map (·.id) = ["t", "s"]) = true := by decide +kernel
  obtain ⟨shims, hshims, hids⟩ := (Option.any_eq_true ..).1 hmet
  have hover : g.shimsWithin "w" 4 = g.shimsOn? "w" := (follow_wire g "w").1 4 (by decide)
  have hon := hover.symm.trans hshims
  exact ⟨hover, shims, hon, of_decide_eq_true hids, (follow_wire g "w").2.2.1 shims hon⟩

/-- A shim that leads to itself. -/
theorem ring_never_ends :
    let g := wired ["s"] [("e1", "g", "s"), ("e2", "s", "s")]
    g.shimsOn? "w" = none ∧ ∀ steps, g.shimsWithin "w" steps = none := by
  intro g
  have hround : g.Onward "w" "s" "s" := ⟨⟨_, rfl, rfl⟩, by decide +kernel⟩
  have hcircular : g.Circular "w" := ⟨"s", "s", by decide +kernel, .refl, .single hround⟩
  exact ⟨(shimsWithin_eq_shimsOn? (Nat.lt_succ_self _)).symm.trans (hcircular.shimsWithin_eq_none _),
    hcircular.shimsWithin_eq_none⟩

end Patchbay.Graph
