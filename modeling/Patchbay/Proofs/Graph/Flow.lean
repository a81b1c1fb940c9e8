import Patchbay.Proofs.Graph.Separation
import Patchbay.Proofs.Graph.Wording

/-! Which way edges lead. What makes an end of a wire valid are the lists of its pinout, and what an edge leads to is the
pin of a node. The two say the same but for a pin that is on both lists. -/

namespace Patchbay

namespace Board

variable {b : Board} {r : AspectRegistry} {naming : Naming} {g : Graph} {w : Wire} {s : Strand}

/-- The node is that of a gadget in a slot whose pinout lists the pin both as an input and as an output. -/
def TwoWay (b : Board) (n : Node) (pin : PinName) : Prop :=
  n.kind = .gadget ∧ ∃ slot sl p, n.slot = some slot ∧ b.slots.get? slot = some sl ∧
    b.pinouts.get? sl.requires = some p ∧ pin ∈ p.inputs ∧ pin ∈ p.outputs

/-- A pin that is listed as an input is one on the node, unless it is listed as an output too. -/
theorem IsSeat.direction?_of_input {n : Node} {slot : SlotName} {sl : Slot} {p : Pinout} {o : Occupant} {pin : PinName}
    (hn : n = o.node naming slot sl p) (hslot : b.slots.get? slot = some sl)
    (hp : b.pinouts.get? sl.requires = some p) (hin : pin ∈ p.inputs) :
    (n.direction? pin = some .input ∧ ¬ b.TwoWay n pin) ∨ (n.direction? pin = some .output ∧ b.TwoWay n pin) := by
  subst hn
  have hpins : (o.node naming slot sl p).pins.get? pin = _ := p.get?_pins pin
  by_cases hout : pin ∈ p.outputs
  · rw [if_pos hout] at hpins
    exact .inr ⟨Node.direction?_of_get? hpins, rfl, slot, sl, p, rfl, hslot, hp, hin, hout⟩
  · rw [if_neg hout, if_pos hin] at hpins
    refine .inl ⟨Node.direction?_of_get? hpins, ?_⟩
    rintro ⟨-, slot', sl', p', hslot', hsl', hp', -, hout'⟩
    obtain rfl : slot = slot' := Option.some.inj hslot'
    obtain rfl : sl = sl' := Option.some.inj (hslot.symm.trans hsl')
    obtain rfl : p = p' := Option.some.inj (hp.symm.trans hp')
    exact hout hout'

/-- The gadget that a strand leads to has the pin that the wire names among its inputs. -/
theorem Strung.target_listed (hv : b.validate = .ok ()) (h : b.Strung r naming w s) :
    ∃ slot sl p o lattice source, b.slots.get? slot = some sl ∧ b.pinouts.get? sl.requires = some p ∧ b.Seated slot o ∧
      w.target.pin ∈ p.inputs ∧ Strand.ofWire r naming w lattice source (naming.gadgetNode o) = .ok s := by
  obtain ⟨o, o', lattice, -, ho', hs⟩ := h.ofWire
  obtain ⟨-, q, hq, hin⟩ := ends_of_validate hv w h.1
  obtain ⟨slot, sl, hslot, hpinout, hseat⟩ := seat_of_landing? hq ho'
  exact ⟨slot, sl, q, o', lattice, _, hslot, hpinout, hseat, List.contains_iff_mem.1 hin, hs⟩

/-- Every edge of a board's graph leads from an output. It leads to an input, or to a pin that the pinout of its gadget
lists as an input and as an output: the node has that pin as an output. -/
theorem realize_flows (hn : naming.TellsApart (b.words r naming)) (hv : b.validate = .ok ())
    (hg : b.realize r naming = .ok g) : ∀ k e, g.edges.get? k = some e →
      ∃ source target, g.nodes.get? e.source = some source ∧ g.nodes.get? e.target = some target ∧
        source.direction? e.sourcePin = some .output ∧
        ((target.direction? e.targetPin = some .input ∧ ¬ b.TwoWay target e.targetPin) ∨
          (target.direction? e.targetPin = some .output ∧ b.TwoWay target e.targetPin)) := by
  intro k e he
  obtain ⟨naming', hn', hagrees⟩ := hn.exists_faithful
  rw [← realize_congr hagrees] at hg
  obtain ⟨source, hsource, hout⟩ := (anchored_of_realize hn' hv hg).sources k e he
  obtain ⟨-, w, s, hs, hmem⟩ := stem_of_edge hg he
  obtain ⟨slot, sl, p, o, lattice, _, hslot, hp, ho, hin, hstrand⟩ := hs.target_listed hv
  rcases ((Strand.parts_of_ofWire hstrand).2 e hmem).2 with ⟨hid, hpin⟩ | ⟨hid, hpin⟩
  · have hseat : b.IsSeat naming' (o.node naming' slot sl p) := ⟨slot, sl, p, o, hslot, hp, ho, rfl⟩
    have htarget : g.nodes.get? e.target = some (o.node naming' slot sl p) := hid ▸ get?_seat hn' hv hg hseat
    exact ⟨source, _, hsource, htarget, hout, hpin ▸ IsSeat.direction?_of_input rfl hslot hp hin⟩
  · obtain ⟨n, hshim, hid⟩ := List.mem_map.1 hid
    obtain ⟨aspect, m, hshimOf, -⟩ := Strand.shim_of_mem hstrand hshim
    refine ⟨source, n, hsource, hid ▸ get?_shim hn' hv hg hs hshim, hout, .inl ⟨hpin ▸ hshimOf.input, ?_⟩⟩
    rintro ⟨hkind, -⟩
    cases hshimOf.kind_eq.symm.trans hkind

theorem OneWay.not_twoWay (h : b.OneWay) (n : Node) (pin : PinName) : ¬ b.TwoWay n pin := by
  rintro ⟨-, _, sl, p, -, -, hp, hin, hout⟩
  exact h sl.requires p hp pin hin hout

/-- A wire over a shim to the pin `x` of a gadget, of which that is the only input. -/
def tappedBoard (outputs : List PinName) : Board where
  id := "b"
  slots := .ofList [("s", { requires := "P" }), ("t", { requires := "Q" })]
  pinouts := .ofList [("P", { inputs := ["in"], outputs := ["out"] }), ("Q", { inputs := ["x"], outputs })]
  occupants := .ofList [("s", [{ id := "g", template := "passthrough" }]), ("t", [{ id := "h", template := "echo" }])]
  wires := [{ id := "w", source := .ofGadget "g" "out", target := .ofGadget "h" "x", aspects := [{ aspect := "tap" }] }]

/-- Where `x` is an input only, the edges to the shim and from it lead from outputs to inputs. -/
theorem realize_flows_tapped : ∃ g,
    (tappedBoard ["y"]).realize .builtin (.ofText Naming.spelling Naming.undotted_spelling) = .ok g ∧
      g.edges.size = 2 ∧ ∀ k e, g.edges.get? k = some e → ∃ source target, g.nodes.get? e.source = some source ∧
        g.nodes.get? e.target = some target ∧ source.direction? e.sourcePin = some .output ∧
        target.direction? e.targetPin = some .input := by
  have hgraph : ((tappedBoard ["y"]).realize .builtin
      (.ofText Naming.spelling Naming.undotted_spelling)).toOption.any (fun g => g.edges.size = 2) = true := by
    decide +kernel
  obtain ⟨g, hg, hsize⟩ := (Option.any_eq_true ..).1 hgraph
  have hwords : (Naming.ofText Naming.spelling Naming.undotted_spelling).TellsApart
      ((tappedBoard ["y"]).words .builtin (.ofText Naming.spelling Naming.undotted_spelling)) := by decide +kernel
  have hpinouts : ∀ x ∈ (tappedBoard ["y"]).pinouts.entries, ∀ pin ∈ x.2.inputs, pin ∉ x.2.outputs := by decide +kernel
  have honeWay : (tappedBoard ["y"]).OneWay := fun name p hp => hpinouts (name, p) (Dict.get?_eq_some_iff.1 hp)
  refine ⟨g, toOption_eq_some.1 hg, of_decide_eq_true hsize, fun k e he => ?_⟩
  obtain ⟨source, target, hsource, htarget, hout, hin⟩ :=
    realize_flows hwords (by decide +kernel) (toOption_eq_some.1 hg) k e he
  exact ⟨source, target, hsource, htarget, hout, (hin.resolve_right fun h => honeWay.not_twoWay _ _ h.2).1⟩

/-- Where `x` is an output too, the wire is valid as one that leads to an input, and its last edge enters an output. -/
theorem edge_enters_output : ∃ (naming : Naming) (g : Graph), naming.Faithful ∧
    (tappedBoard ["x"]).normalize naming = tappedBoard ["x"] ∧ (tappedBoard ["x"]).validate = .ok () ∧
      (tappedBoard ["x"]).realize .builtin naming = .ok g ∧ ∃ k e target, g.edges.get? k = some e ∧
        g.nodes.get? e.target = some target ∧ target.direction? e.targetPin = some .output := by
  have hgraph : ((tappedBoard ["x"]).realize .builtin .spelled).toOption.any (fun g => g.edges.entries.any fun x =>
      (g.nodes.get? x.2.target).any fun n => n.direction? x.2.targetPin = some .output) = true := by decide +kernel
  obtain ⟨g, hg, hany⟩ := (Option.any_eq_true ..).1 hgraph
  obtain ⟨⟨k, e⟩, he, hany⟩ := List.any_eq_true.1 hany
  obtain ⟨target, htarget, hout⟩ := (Option.any_eq_true ..).1 hany
  exact ⟨.spelled, g, Naming.faithful_spelled, rfl, by decide +kernel, toOption_eq_some.1 hg, k, e, target,
    Dict.get?_eq_some_iff.2 he, htarget, of_decide_eq_true hout⟩

end Board

end Patchbay
