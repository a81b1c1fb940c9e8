import Patchbay.Graph.Chain
import Patchbay.Graph.Strand
import Patchbay.Proofs.Dict

/-! Chains of edges, and how they are read off a graph. Where the edges of a wire make up a chain over shims that
differ, from gadget to gadget, following them edge by edge meets these shims in their order. -/

namespace Patchbay

/-- An edge leads from one pin to another. -/
structure Edge.Links (e : Edge) (a b : NodePin) : Prop where
  source_eq : e.source = a.node
  sourcePin_eq : e.sourcePin = a.pin
  target_eq : e.target = b.node
  targetPin_eq : e.targetPin = b.pin

/-- Edges that lead from pin to pin, one behind the other: into each of the nodes by its pin `in`, and on by its pin
`out`. -/
inductive Chained : NodePin → List NodeId → NodePin → List Edge → Prop
  | last {a b e} : e.Links a b → Chained a [] b [e]
  | through {a b n rest e es} : e.Links a ⟨n, "in"⟩ → Chained ⟨n, "out"⟩ rest b es → Chained a (n :: rest) b (e :: es)

namespace Chained

variable {a b : NodePin} {ns : List NodeId} {es : List Edge}

theorem map_source (h : Chained a ns b es) : es.map (·.source) = a.node :: ns := by
  induction h with
  | last hl => rw [List.map_singleton, hl.source_eq]
  | through hl _ ih => rw [List.map_cons, hl.source_eq, ih]

theorem ne_nil (h : Chained a ns b es) : ∃ e rest, es = e :: rest ∧ e.source = a.node := by
  cases h with
  | last hl => exact ⟨_, _, rfl, hl.source_eq⟩
  | through hl _ => exact ⟨_, _, rfl, hl.source_eq⟩

end Chained

theorem Strand.chained_edgesAlong (naming : Naming) (wire : WireId) (tags : Names) (a : NodePin) (ns : List NodeId)
    (b : NodePin) : Chained a ns b (edgesAlong naming wire tags a ns b) := by
  induction ns generalizing a with
  | nil => exact .last ⟨rfl, rfl, rfl, rfl⟩
  | cons n rest ih => exact .through ⟨rfl, rfl, rfl, rfl⟩ (ih ⟨n, "out"⟩)

theorem find?_eq_some_of_unique {α : Type} {p : α → Bool} {l : List α} {x : α} (hx : x ∈ l) (hp : p x = true)
    (hunique : ∀ y ∈ l, p y = true → y = x) : l.find? p = some x := by
  obtain ⟨y, hy⟩ := Option.isSome_iff_exists.1 (List.find?_isSome.2 ⟨x, hx, hp⟩)
  rw [hy, hunique y (List.mem_of_find?_eq_some hy) (List.find?_some hy)]

namespace Graph

variable {g : Graph} {wire : WireId} {a b : NodePin} {shims : List Node} {e : Edge} {es : List Edge}

/-- No two edges of a wire leave one node. -/
def Unbranched (g : Graph) (wire : WireId) : Prop :=
  ∀ e ∈ g.edgesOn wire, ∀ e' ∈ g.edgesOn wire, e.source = e'.source → e = e'

theorem next?_of_unbranched (hu : g.Unbranched wire) (he : e ∈ g.edgesOn wire) :
    g.next? wire e.source = some e.target := by
  rw [next?, find?_eq_some_of_unique he (beq_self_eq_true e.source) fun y hy hs => hu y hy e he (beq_iff_eq.1 hs),
    Option.map_some]

/-- From the first of its shims on, a chain is met in its order. -/
theorem chainFrom?_of_chained (hu : g.Unbranched wire)
    (hshims : ∀ n ∈ shims, g.nodes.get? n.id = some n ∧ n.kind = .shim) (hnodup : (shims.map (·.id)).Nodup)
    (hend : ∃ t, g.nodes.get? b.node = some t ∧ t.kind = .gadget) {unseen : List NodeId}
    (hunseen : ∀ n ∈ shims, n.id ∈ unseen) (hedges : ∀ x ∈ es, x ∈ g.edgesOn wire)
    (h : Chained a (shims.map (·.id)) b (e :: es)) : g.chainFrom? wire unseen e.target = some shims := by
  induction shims generalizing a e es unseen with
  | nil =>
    cases h with
    | last hl =>
      obtain ⟨t, ht, hk⟩ := hend
      rw [chainFrom?, hl.target_eq, ht]
      simp only [hk, if_true]
  | cons n rest ih =>
    cases h with
    | through hl hrest =>
      obtain ⟨hget, hkind⟩ := hshims n List.mem_cons_self
      obtain ⟨hnew, hnodup⟩ := List.nodup_cons.1 hnodup
      obtain ⟨e', es', rfl, hsource⟩ := hrest.ne_nil
      have hsource : e'.source = n.id := hsource
      have hnext : g.next? wire n.id = some e'.target := by
        rw [← hsource]
        exact next?_of_unbranched hu (hedges e' List.mem_cons_self)
      -- the shims that follow are still unseen, for they differ from this one
      have htail : g.chainFrom? wire (unseen.erase n.id) e'.target = some rest := by
        refine ih (fun x hx => hshims x (List.mem_cons_of_mem n hx)) hnodup (fun x hx => ?_)
          (fun x hx => hedges x (List.mem_cons_of_mem e' hx)) hrest
        have hne : x.id ≠ n.id := fun he => hnew (List.mem_map.2 ⟨x, hx, he⟩)
        exact (List.mem_erase_of_ne hne).2 (hunseen x (List.mem_cons_of_mem n hx))
      have hseen : n.id ∈ unseen := hunseen n List.mem_cons_self
      have hshim : n.kind ≠ .gadget := by rw [hkind]; decide
      have htarget : e.target = n.id := hl.target_eq
      rw [chainFrom?, htarget, hget]
      simp only [hshim, hseen, hnext, htail, if_false, dite_true, Option.map_some]

/-- Where the edges of a wire make up a chain from gadget to gadget, its shims are met in their order. -/
theorem shimsOn?_of_chained (hshims : ∀ n ∈ shims, g.nodes.get? n.id = some n ∧ n.kind = .shim)
    (hnodup : (shims.map (·.id)).Nodup) (hstart : ∃ t, g.nodes.get? a.node = some t ∧ t.kind = .gadget)
    (hend : ∃ t, g.nodes.get? b.node = some t ∧ t.kind = .gadget) (hedges : ∀ x, x ∈ g.edgesOn wire ↔ x ∈ es)
    (h : Chained a (shims.map (·.id)) b es) : g.shimsOn? wire = some shims := by
  obtain ⟨t, ht, hk⟩ := hstart
  have hkind {id : NodeId} (hid : id ∈ shims.map (·.id)) :
      ((g.nodes.get? id).any fun n => n.kind = .gadget) = false := by
    obtain ⟨n, hn, rfl⟩ := List.mem_map.1 hid
    obtain ⟨hget, hshim⟩ := hshims n hn
    rw [hget, Option.any_some, hshim]
    rfl
  have hsources := h.map_source
  have hapart : (es.map (·.source)).Nodup := by
    rw [hsources]
    refine List.nodup_cons.2 ⟨fun hin => ?_, hnodup⟩
    have hnot := hkind hin
    rw [ht, Option.any_some, hk] at hnot
    cases hnot
  have hu : g.Unbranched wire := fun x hx y hy =>
    List.inj_on_of_nodup_map hapart ((hedges x).1 hx) ((hedges y).1 hy)
  obtain ⟨e, rest, rfl, hsource⟩ := h.ne_nil
  have hfirst : (g.edgesOn wire).find? (fun e => (g.nodes.get? e.source).any fun n => n.kind = .gadget) = some e := by
    refine find?_eq_some_of_unique ((hedges e).2 List.mem_cons_self) ?_ fun y hy hy' => ?_
    · rw [hsource, ht, Option.any_some, hk]
      rfl
    · refine hu y hy e ((hedges e).2 List.mem_cons_self) ?_
      have hmem : y.source ∈ a.node :: shims.map (·.id) := hsources ▸ List.mem_map_of_mem ((hedges y).1 hy)
      rcases List.mem_cons.1 hmem with hy'' | hin
      · exact hy''.trans hsource.symm
      · rw [hkind hin] at hy'
        cases hy'
  rw [shimsOn?, chainStart?, hfirst, Option.map_some]
  refine chainFrom?_of_chained hu hshims hnodup hend (fun n hn => ?_)
    (fun x hx => (hedges x).2 (List.mem_cons_of_mem e hx)) h
  exact Dict.mem_keys_of_get? (hshims n hn).1

end Graph

end Patchbay
