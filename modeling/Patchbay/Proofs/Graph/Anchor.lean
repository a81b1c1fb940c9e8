import Patchbay.Proofs.Graph.Agreement
import Patchbay.Proofs.Json.Text

/-! What holds the graph of a valid board together. A gadget has one node, a shim stands between pins that there are and
takes its lattice from one of them, and every edge leads from a pin to a pin. -/

namespace Patchbay

/-! ## Pins -/

theorem Dict.get?_foldl_insert_of {α : Type} (f : String → α) (l : List String) (d : Dict α) (k : String) :
    (l.foldl (fun d x => d.insert x (f x)) d).get? k = if k ∈ l then some (f k) else d.get? k := by
  induction l generalizing d with
  | nil => rfl
  | cons x rest ih =>
    rw [List.foldl_cons, ih, get?_insert]
    by_cases hk : k = x <;> by_cases hr : k ∈ rest <;> simp [hk, hr]

namespace Pinout

theorem get?_pins (p : Pinout) (pin : PinName) : p.pins.get? pin =
    if pin ∈ p.outputs then some ⟨.output, p.lattices.get? pin⟩
    else if pin ∈ p.inputs then some ⟨.input, p.lattices.get? pin⟩ else none := by
  let spec (d : PinDirection) (pin : PinName) : PinSpec := ⟨d, p.lattices.get? pin⟩
  refine (Dict.get?_foldl_insert_of (spec .output) p.outputs _ pin).trans ?_
  split
  · rfl
  · exact Dict.get?_foldl_insert_of (spec .input) p.inputs ∅ pin

theorem get?_pins_of_hasOutput {p : Pinout} {pin : PinName} (h : p.hasOutput pin = true) :
    p.pins.get? pin = some ⟨.output, p.lattices.get? pin⟩ := by
  rw [get?_pins, if_pos (List.contains_iff_mem.1 h)]

theorem get?_pins_of_hasInput {p : Pinout} {pin : PinName} (h : p.hasInput pin = true) (ho : pin ∉ p.outputs) :
    p.pins.get? pin = some ⟨.input, p.lattices.get? pin⟩ := by
  rw [get?_pins, if_neg ho, if_pos (List.contains_iff_mem.1 h)]

theorem contains_pins_of_hasInput {p : Pinout} {pin : PinName} (h : p.hasInput pin = true) :
    p.pins.contains pin = true := by
  rw [Dict.contains_iff, get?_pins, if_pos (List.contains_iff_mem.1 h)]
  split
  · exact ⟨_, rfl⟩
  · exact ⟨_, rfl⟩

end Pinout

theorem Manifest.get?_shimPins {lattice : Option LatticeName} {pin : PinName} {spec : PinSpec}
    (h : (shimPins lattice).get? pin = some spec) : spec.lattice = lattice := by
  rw [Dict.get?, entries_shimPins] at h
  simp only [Entries.find?] at h
  split at h
  · cases h
    rfl
  split at h <;> cases h
  rfl

theorem Manifest.get?_shimPins_in (lattice : Option LatticeName) :
    (shimPins lattice).get? "in" = some ⟨.input, lattice⟩ := by
  rw [Dict.get?, entries_shimPins]
  rfl

theorem Manifest.get?_shimPins_out (lattice : Option LatticeName) :
    (shimPins lattice).get? "out" = some ⟨.output, lattice⟩ := by
  rw [Dict.get?, entries_shimPins]
  rfl

/-- No pinout lists a pin both as an input and as an output. -/
def Board.OneWay (b : Board) : Prop := ∀ name p, b.pinouts.get? name = some p → ∀ pin ∈ p.inputs, pin ∉ p.outputs

/-! ## Shims -/

/-- The node is the shim of an aspect: the aspect tells what it is made from, and its identity which parameters. -/
def Node.Embodies (n : Node) (r : AspectRegistry) (naming : Naming) : Prop :=
  ∃ wire aspect m joinPoint, r.get? aspect = some m ∧ m.kind = .dataPlane joinPoint n.template ∧
    n.id = naming.shimNode wire aspect n.params

/-- Shims of one identity are made from one template with the same parameters. -/
theorem Node.Embodies.same {r : AspectRegistry} {naming : Naming} (hn : naming.Faithful) {n n' : Node}
    (h : n.Embodies r naming) (h' : n'.Embodies r naming) (hid : n.id = n'.id) :
    n.template = n'.template ∧ n.params = n'.params := by
  obtain ⟨wire, aspect, m, joinPoint, hm, hk, he⟩ := h
  obtain ⟨wire', aspect', m', joinPoint', hm', hk', he'⟩ := h'
  have hparts := hn.parts_eq (he.symm.trans (hid.trans he'))
  simp only [List.cons.injEq, and_true, true_and] at hparts
  obtain ⟨-, rfl, hparams⟩ := hparts
  rw [hm] at hm'
  cases hm'
  rw [hk] at hk'
  exact ⟨(AspectKind.dataPlane.inj hk').2, Json.text_injective hparams⟩

theorem Manifest.embodies_of_shimOn? {r : AspectRegistry} {m : Manifest} {naming : Naming} {w : Wire}
    {lattice : Option LatticeName} {aspect : AspectId} {n : Node} (hm : r.get? aspect = some m)
    (h : m.shimOn? naming w lattice aspect = some n) :
    n.Embodies r naming ∧ n.pins = Manifest.shimPins lattice := by
  unfold shimOn? at h
  split at h
  · cases h
  next joinPoint template hk =>
  obtain ⟨⟨params, contributors⟩, -, rfl⟩ := Option.map_eq_some_iff.1 h
  exact ⟨⟨w.id, aspect, m, joinPoint, hm, hk, rfl⟩, rfl⟩

namespace AspectRegistry

variable {r : AspectRegistry} {w : Wire}

theorem get?_of_manifestsOn {l : List AspectInstance} {d d' : Dict Manifest}
    (h : l.foldlM (fun acc a => do return acc.insert a.aspect (← r.manifestOnWire a.aspect)) d = .ok d')
    {aspect : AspectId} {m : Manifest} (hm : d'.get? aspect = some m) :
    r.get? aspect = some m ∨ d.get? aspect = some m := by
  induction l generalizing d with
  | nil =>
    cases h
    exact .inr hm
  | cons a rest ih =>
    rw [List.foldlM_cons] at h
    obtain ⟨d₁, h₁, hrest⟩ := ok_of_bind h
    obtain ⟨m', hm', h₁⟩ := ok_of_bind h₁
    cases h₁
    rcases ih hrest with hr | hd
    · exact .inl hr
    · rcases Dict.get?_insert_eq_some.1 hd with ⟨rfl, rfl⟩ | ⟨-, hd⟩
      · refine .inl ?_
        unfold manifestOnWire at hm'
        split at hm'
        · cases hm'
        next m'' hget =>
        split at hm' <;> cases hm'
        exact hget
      · exact .inr hd

theorem get?_of_aspectsOn {aspects : List (AspectId × Manifest)} (h : r.aspectsOn w = .ok aspects) :
    ∀ x ∈ aspects, r.get? x.1 = some x.2 := by
  obtain ⟨manifests, hmanifests, h⟩ := ok_of_bind h
  obtain ⟨_, -, h⟩ := ok_of_bind h
  cases h
  intro x hx
  obtain ⟨id, -, hid⟩ := List.mem_filterMap.1 hx
  obtain ⟨m, hm, rfl⟩ := Option.map_eq_some_iff.1 hid
  exact (get?_of_manifestsOn hmanifests hm).resolve_right nofun

end AspectRegistry

/-! ## Strands -/

namespace Strand

/-- The shims of a strand embody aspects and share a lattice, and its edges lead from the source over them to the
target. -/
theorem parts_of_ofWire {r : AspectRegistry} {naming : Naming} {w : Wire} {lattice : Option LatticeName}
    {source target : NodeId} {s : Strand} (h : ofWire r naming w lattice source target = .ok s) :
    (∀ n ∈ s.shims, n.Embodies r naming ∧ n.pins = Manifest.shimPins lattice) ∧
      ∀ e ∈ s.edges,
        ((e.source = source ∧ e.sourcePin = w.source.pin) ∨
          (e.source ∈ s.shims.map (·.id) ∧ e.sourcePin = "out")) ∧
        ((e.target = target ∧ e.targetPin = w.target.pin) ∨
          (e.target ∈ s.shims.map (·.id) ∧ e.targetPin = "in")) := by
  obtain ⟨aspects, haspects, h⟩ := ok_of_bind h
  cases h
  refine ⟨fun n hn => ?_, fun e he => (ends_of_mem_edgesAlong he).2⟩
  obtain ⟨x, hx, hxn⟩ := List.mem_filterMap.1 hn
  exact Manifest.embodies_of_shimOn? (AspectRegistry.get?_of_aspectsOn haspects x hx) hxn

end Strand

namespace Board

/-! ## Seats -/

/-- An endpoint lands on a gadget in the slot that it is about. -/
theorem seat_of_landing? {b : Board} {wire : WireId} {e : Endpoint} {o : Occupant} {p : Pinout}
    (hp : b.pinoutAt wire e = .ok p) (ho : b.landing? e = some o) :
    ∃ slot s, b.slots.get? slot = some s ∧ b.pinouts.get? s.requires = some p ∧ b.Seated slot o := by
  obtain ⟨slot, hslot, hp⟩ := ok_of_bind hp
  have hseat : b.Seated slot o := by
    unfold landing? at ho
    unfold slotAt at hslot
    split at hslot
    · next hs hg =>
      cases hslot
      rw [hs, hg] at ho
      exact mem_getD_occupants.1 (List.mem_of_mem_head? ho)
    · next hs hg =>
      rw [hg] at ho
      split at hslot
      · next hfind =>
        cases hslot
        exact seated_of_slotOf? ho hfind
      · cases hslot
    · cases hslot
  split at hp
  · cases hp
  next s hs =>
  split at hp
  · cases hp
  next p' hp' =>
  cases hp
  exact ⟨slot, s, hs, hp', hseat⟩

variable {b b' : Board} {r : AspectRegistry} {naming : Naming} {g : Graph}

/-- A gadget that stays on the board keeps its node. -/
theorem Beside.seat_eq (h : b.Beside b') (hn : naming.Faithful) (hv : b.validate = .ok ())
    (hv' : b'.validate = .ok ()) {n n' : Node} (hs : b.IsSeat naming n) (hs' : b'.IsSeat naming n')
    (hid : n.id = n'.id) : n = n' := by
  obtain ⟨slot, s, p, o, hs, hp, ho, rfl⟩ := hs
  obtain ⟨slot', s', p', o', hs', hp', ho', rfl⟩ := hs'
  have hgadget : o.id = o'.id := hn.gadget_eq hid
  obtain rfl := h.slot_eq hv hv' ho ho' hgadget
  obtain rfl := h.occupant_eq hv hv' ho ho' hgadget
  rw [h.slots_eq, hs] at hs'
  cases hs'
  rw [h.pinouts_eq, hp] at hp'
  cases hp'
  rfl

/-- What a strand is strung between. -/
theorem ends_of_strandOf? {gadgets : Graph} {w : Wire} {s : Strand} (hv : b.validate = .ok ())
    (hw : w ∈ b.wires) (h : b.strandOf? r naming gadgets w = .ok (some s)) :
    ∃ source target spec, b.IsSeat naming source ∧ b.IsSeat naming target ∧
      source.pins.get? w.source.pin = some spec ∧ spec.direction = .output ∧
      target.pins.contains w.target.pin = true ∧ (b.OneWay → target.direction? w.target.pin = some .input) ∧
      Strand.ofWire r naming w (gadgets.latticeOf? source.id w.source.pin) source.id target.id = .ok s := by
  obtain ⟨⟨p, hp, hout⟩, q, hq, hin⟩ := ends_of_validate hv w hw
  unfold strandOf? at h
  split at h
  · next o o' ho ho' =>
    obtain ⟨s', hs, h⟩ := ok_of_bind h
    cases h
    obtain ⟨slot, sl, hslot, hpinout, hseat⟩ := seat_of_landing? hp ho
    obtain ⟨slot', sl', hslot', hpinout', hseat'⟩ := seat_of_landing? hq ho'
    refine ⟨o.node naming slot sl p, o'.node naming slot' sl' q, _, ⟨slot, sl, p, o, hslot, hpinout, hseat, rfl⟩,
      ⟨slot', sl', q, o', hslot', hpinout', hseat', rfl⟩, Pinout.get?_pins_of_hasOutput hout, rfl,
      Pinout.contains_pins_of_hasInput hin, fun ho => ?_, ok_of_mapError hs⟩
    have hnot : w.target.pin ∉ q.outputs := ho _ q hpinout' _ (List.contains_iff_mem.1 hin)
    have hspec : (o'.node naming slot' sl' q).pins.get? w.target.pin = some _ := Pinout.get?_pins_of_hasInput hin hnot
    exact Node.direction?_of_get? hspec
  · cases h

/-! ## Graphs -/

/-- All of a graph stems from the nodes of occupants and the strands of wires. -/
theorem parts_of_realize (h : b.realize r naming = .ok g) :
    ∃ nodes, b.gadgetNodes naming = .ok nodes ∧ (∀ n ∈ nodes, g.nodes.contains n.id = true) ∧
      (∀ id n, g.nodes.get? id = some n → n ∈ nodes ∨ ∃ w ∈ b.wires, ∃ s,
        b.strandOf? r naming (nodes.foldl Graph.addNode .empty) w = .ok (some s) ∧ n ∈ s.shims) ∧
      ∀ k e, g.edges.get? k = some e → ∃ w ∈ b.wires, ∃ s,
        b.strandOf? r naming (nodes.foldl Graph.addNode .empty) w = .ok (some s) ∧ e ∈ s.edges := by
  obtain ⟨nodes, hnodes, h⟩ := ok_of_bind h
  obtain ⟨strands, hstrands, h⟩ := ok_of_bind h
  cases h
  refine ⟨nodes, ok_of_mapError hnodes, ?_⟩
  generalize hgadgets : nodes.foldl Graph.addNode .empty = gadgets at hstrands ⊢
  have hstrand : ∀ x ∈ strands, ∀ s, x.2 = some s → ∃ w ∈ b.wires, b.strandOf? r naming gadgets w = .ok (some s) := by
    intro x hx s hs
    obtain ⟨w, hw, hx⟩ := (mem_of_mapM hstrands).1 x hx
    obtain ⟨_, hstrand, hx⟩ := ok_of_bind hx
    cases hx
    exact ⟨w, hw, hs ▸ hstrand⟩
  let P (g : Graph) : Prop := (∀ n ∈ nodes, g.nodes.contains n.id = true) ∧
    (∀ id n, g.nodes.get? id = some n → n ∈ nodes ∨ ∃ w ∈ b.wires, ∃ s,
      b.strandOf? r naming gadgets w = .ok (some s) ∧ n ∈ s.shims) ∧
    ∀ k e, g.edges.get? k = some e → ∃ w ∈ b.wires, ∃ s,
      b.strandOf? r naming gadgets w = .ok (some s) ∧ e ∈ s.edges
  have hstart : P gadgets := by
    rw [← hgadgets, Graph.foldl_addNode]
    refine ⟨fun n hn => ?_, fun id n hid => .inl ?_, nofun⟩
    · exact (Dict.contains_foldl_insert (fun n : Node => n.id) ..).2 (.inl (List.mem_map_of_mem hn))
    · exact ((Dict.mem_of_get?_foldl_insert hid).resolve_right nofun).1
  have hplace : ∀ g, ∀ x ∈ strands, P g → P (g.placeWire x) := by
    rintro g ⟨wire, strand⟩ hx ⟨hin, hof, hedge⟩
    cases strand with
    | none => exact ⟨hin, hof, hedge⟩
    | some s =>
      obtain ⟨w, hw, hs⟩ := hstrand _ hx s rfl
      rw [Graph.placeWire, Graph.addStrand_eq]
      refine ⟨fun n hn => ?_, fun id n hid => ?_, fun k e he => ?_⟩
      · exact (Dict.contains_foldl_insert (fun n : Node => n.id) ..).2 (.inr (hin n hn))
      · rcases Dict.mem_of_get?_foldl_insert hid with ⟨hn, -⟩ | hid
        · exact .inr ⟨w, hw, s, hs, hn⟩
        · exact hof id n hid
      · rcases Dict.mem_of_get?_foldl_insert he with ⟨he, -⟩ | he
        · exact ⟨w, hw, s, hs, he⟩
        · exact hedge k e he
  exact foldl_keeps hplace hstart

theorem IsSeat.id_ne_shimNode (hn : naming.Faithful) {n : Node} (hs : b.IsSeat naming n) (wire : WireId)
    (aspect : AspectId) (params : Json) : n.id ≠ naming.shimNode wire aspect params := by
  obtain ⟨slot, s, p, o, -, -, -, rfl⟩ := hs
  exact hn.gadgetNode_ne_shimNode o wire aspect params

/-- The gadgets of a valid board have their nodes, on their own and among shims. -/
theorem get?_gadgets (hn : naming.Faithful) (hv : b.validate = .ok ()) {nodes : List Node}
    (hnodes : b.gadgetNodes naming = .ok nodes) {n : Node} (hs : b.IsSeat naming n) :
    n ∈ nodes ∧ (nodes.foldl Graph.addNode .empty).nodes.get? n.id = some n := by
  obtain ⟨hseat, hall⟩ := mem_gadgetNodes hnodes
  have hmem : n ∈ nodes := by
    obtain ⟨slot, s, p, o, hslot, hp, ho, rfl⟩ := hs
    obtain ⟨m, hm, hid⟩ := List.mem_map.1 (hall slot o ho)
    rwa [← (Beside.refl b).seat_eq hn hv hv (hseat m hm) ⟨slot, s, p, o, hslot, hp, ho, rfl⟩ hid]
  refine ⟨hmem, ?_⟩
  rw [Graph.foldl_addNode]
  obtain ⟨m, hm⟩ := Dict.contains_iff.1
    ((Dict.contains_foldl_insert (fun n : Node => n.id) nodes ∅ n.id).2 (.inl (List.mem_map_of_mem hmem)))
  obtain ⟨hm', hid⟩ := (Dict.mem_of_get?_foldl_insert hm).resolve_right nofun
  rw [← (Beside.refl b).seat_eq hn hv hv (hseat m hm') hs hid]
  rwa [← hid] at hm

theorem get?_seat (hn : naming.Faithful) (hv : b.validate = .ok ()) (h : b.realize r naming = .ok g) {n : Node}
    (hs : b.IsSeat naming n) : g.nodes.get? n.id = some n := by
  obtain ⟨nodes, hnodes, hin, -⟩ := parts_of_realize h
  obtain ⟨m, hm⟩ := Dict.contains_iff.1 (hin n (get?_gadgets hn hv hnodes hs).1)
  have hid := (grounds_of_realize h).node_id _ m hm
  rcases (grounds_of_realize h).stems _ m hm with hseat | ⟨wire, aspect, params, lattice, he, -⟩
  · rw [hm, (Beside.refl b).seat_eq hn hv hv hseat hs hid]
  · exact absurd (hid.symm.trans he) (hs.id_ne_shimNode hn wire aspect params)

/-- Shims take their lattice from a pin of a gadget, and edges lead from outputs to pins that are inputs, where pinouts
keep the two apart. -/
structure Anchored (b : Board) (r : AspectRegistry) (naming : Naming) (g : Graph) : Prop where
  seats : ∀ id n, g.nodes.get? id = some n → n.kind = .gadget → b.IsSeat naming n
  shims : ∀ id n, g.nodes.get? id = some n → n.kind = .shim → n.Embodies r naming ∧
    ∃ source m pin spec, g.nodes.get? source = some m ∧ m.kind = .gadget ∧ m.pins.get? pin = some spec ∧
      n.pins = Manifest.shimPins spec.lattice
  sources : ∀ k e, g.edges.get? k = some e →
    ∃ n, g.nodes.get? e.source = some n ∧ n.direction? e.sourcePin = some .output
  targets : ∀ k e, g.edges.get? k = some e →
    ∃ n, g.nodes.get? e.target = some n ∧ n.pins.contains e.targetPin = true ∧
      (b.OneWay → n.direction? e.targetPin = some .input)

theorem IsSeat.kind_eq {n : Node} (h : b.IsSeat naming n) : n.kind = .gadget := by
  obtain ⟨slot, s, p, o, -, -, -, rfl⟩ := h
  rfl

theorem anchored_of_realize (hn : naming.Faithful) (hv : b.validate = .ok ())
    (h : b.realize r naming = .ok g) : b.Anchored r naming g := by
  have hgrounds := grounds_of_realize h
  obtain ⟨nodes, hnodes, -, hof, hedge⟩ := parts_of_realize h
  -- a node with the identity of a shim is a shim, be it that of another strand
  have hshim {s : Strand} {source target id : NodeId} (hs : s.Joins naming source target)
      (hid : id ∈ s.shims.map (·.id)) (hin : g.nodes.contains id = true) :
      ∃ n lattice, g.nodes.get? id = some n ∧ n.pins = Manifest.shimPins lattice := by
    obtain ⟨n, hget⟩ := Dict.contains_iff.1 hin
    obtain ⟨m, hm, rfl⟩ := List.mem_map.1 hid
    obtain ⟨wire, aspect, params, _, he, -⟩ := hs.shims m hm
    rcases hgrounds.stems _ n hget with hseat | ⟨_, _, _, lattice, -, -, hpins, -⟩
    · exact absurd ((hgrounds.node_id _ n hget).trans he) (hseat.id_ne_shimNode hn wire aspect params)
    · exact ⟨n, lattice, hget, hpins⟩
  refine ⟨fun id n hget hk => ?_, fun id n hget hk => ?_, fun k e he => ?_, fun k e he => ?_⟩
  · rcases hgrounds.stems id n hget with hseat | ⟨_, _, _, _, -, hshim, -⟩
    · exact hseat
    · rw [hk] at hshim
      cases hshim
  · rcases hof id n hget with hmem | ⟨w, hw, s, hs, hmem⟩
    · rw [((mem_gadgetNodes hnodes).1 n hmem).kind_eq] at hk
      cases hk
    obtain ⟨source, target, spec, hsource, -, hspec, -, -, -, hs⟩ := ends_of_strandOf? hv hw hs
    obtain ⟨hembodies, hpins⟩ := (Strand.parts_of_ofWire hs).1 n hmem
    refine ⟨hembodies, source.id, source, w.source.pin, spec, get?_seat hn hv h hsource, hsource.kind_eq, hspec, ?_⟩
    rw [hpins, Graph.latticeOf?, (get?_gadgets hn hv hnodes hsource).2, Option.bind_some, hspec, Option.bind_some]
  · obtain ⟨w, hw, s, hs, hmem⟩ := hedge k e he
    obtain ⟨source, target, spec, hsource, -, hspec, hout, -, -, hs⟩ := ends_of_strandOf? hv hw hs
    rcases ((Strand.parts_of_ofWire hs).2 e hmem).1 with ⟨hid, hpin⟩ | ⟨hid, hpin⟩
    · refine ⟨source, hid ▸ get?_seat hn hv h hsource, ?_⟩
      rw [hpin, Node.direction?_of_get? hspec, hout]
    · obtain ⟨n, lattice, hget, hpins⟩ := hshim (Strand.joins_of_ofWire hs) hid (hgrounds.ends k e he).1
      have hspec : n.pins.get? e.sourcePin = some ⟨.output, lattice⟩ := by
        rw [hpins, hpin, Manifest.get?_shimPins_out]
      exact ⟨n, hget, Node.direction?_of_get? hspec⟩
  · obtain ⟨w, hw, s, hs, hmem⟩ := hedge k e he
    obtain ⟨source, target, spec, -, htarget, -, -, hpin', hin, hs⟩ := ends_of_strandOf? hv hw hs
    rcases ((Strand.parts_of_ofWire hs).2 e hmem).2 with ⟨hid, hpin⟩ | ⟨hid, hpin⟩
    · exact ⟨target, hid ▸ get?_seat hn hv h htarget, hpin ▸ hpin', hpin ▸ hin⟩
    · obtain ⟨n, lattice, hget, hpins⟩ := hshim (Strand.joins_of_ofWire hs) hid (hgrounds.ends k e he).2
      have hspec : n.pins.get? e.targetPin = some ⟨.input, lattice⟩ := by
        rw [hpins, hpin, Manifest.get?_shimPins_in]
      exact ⟨n, hget, Dict.contains_of_get? hspec, fun _ => Node.direction?_of_get? hspec⟩

/-- The lattice of a pin, be it of a gadget or of a shim, is that of a pin of a pinout. -/
theorem Anchored.lattice_eq (ha : b.Anchored r naming g) {id : NodeId} {n : Node} {pin : PinName} {spec : PinSpec}
    (hn : g.nodes.get? id = some n) (hspec : n.pins.get? pin = some spec) :
    ∃ name p pin', b.pinouts.get? name = some p ∧ (pin' ∈ p.inputs ∨ pin' ∈ p.outputs) ∧
      spec.lattice = p.lattices.get? pin' := by
  have hseat {id : NodeId} {n : Node} {pin : PinName} {spec : PinSpec} (hn : g.nodes.get? id = some n)
      (hk : n.kind = .gadget) (hspec : n.pins.get? pin = some spec) :
      ∃ name p pin', b.pinouts.get? name = some p ∧ (pin' ∈ p.inputs ∨ pin' ∈ p.outputs) ∧
        spec.lattice = p.lattices.get? pin' := by
    obtain ⟨slot, s, p, o, -, hp, -, rfl⟩ := ha.seats id n hn hk
    rw [show (o.node naming slot s p).pins = p.pins from rfl, Pinout.get?_pins] at hspec
    split at hspec
    · next hout =>
      cases hspec
      exact ⟨_, p, pin, hp, .inr hout, rfl⟩
    · split at hspec
      · next hin =>
        cases hspec
        exact ⟨_, p, pin, hp, .inl hin, rfl⟩
      · cases hspec
  cases hk : n.kind with
  | gadget => exact hseat hn hk hspec
  | shim =>
    obtain ⟨-, source, m, pin', spec', hm, hk', hspec', hpins⟩ := ha.shims id n hn hk
    rw [hpins] at hspec
    rw [Manifest.get?_shimPins hspec]
    exact hseat hm hk' hspec'

end Board

end Patchbay
