import Patchbay.Graph.Form
import Patchbay.Proofs.Board.Form

/-! Graphs are written without loss. -/

namespace Patchbay

open Json JsonForm

/-! ## Pins -/

theorem lossless_nodeKind : Lossless NodeKind 0 fun _ => True where
  decode_encode {k} _ := by
    cases k <;> rfl
  holds _ := trivial
  readable {_ _ k} _ _ _ := by
    cases k <;> exact .str _

theorem lossless_pinDirection : Lossless PinDirection 0 fun _ => True where
  decode_encode {d} _ := by
    cases d <;> rfl
  holds _ := trivial
  readable {_ _ d} _ _ _ := by
    cases d <;> exact .str _

theorem PinSpec.decode?_eq_some_iff {j : Json} {p : PinSpec} :
    decode? j = some p ↔ ∃ f, fields? ["direction", "lattice"] j = some f ∧
      required? f "direction" = some p.direction ∧ optional? f "lattice" none = some p.lattice := by
  cases p
  simp [decode?, Option.bind_eq_some_iff]

theorem lossless_pinSpec : Lossless PinSpec 1 fun _ => True where
  decode_encode _ := PinSpec.decode?_eq_some_iff.2 ⟨_, fields?_mkObj _ _,
    required?_of_find? (by simp) (lossless_pinDirection.decode_encode trivial),
    optional?_of_find?_ifSome (by simp) (lossless_option_string.decode_encode trivial)⟩
  holds _ := trivial
  readable _ hj h := by
    obtain ⟨f, hf, hdirection, hlattice⟩ := PinSpec.decode?_eq_some_iff.1 h
    obtain ⟨m, rfl, hm⟩ := hj.fields? hf
    have hdirection := lossless_pinDirection.required_readable (Nat.zero_le m) hm hdirection
    have hlattice := lossless_option_string.optional_readable (Nat.zero_le m) hm .null hlattice
    exact readable_mkObj <| .append (allReadable_member hdirection) (allReadable_memberIfSome hlattice)

/-! ## Origins -/

/-- The position among the aspects of a wire fits the machine. -/
def NodeOrigin.Indexed : NodeOrigin → Prop
  | .occupant _ => True
  | .aspect _ _ index _ => index ≤ maxNat64

theorem NodeOrigin.decode?_occupant_iff {j : Json} {slot : SlotName} :
    decode? j = some (NodeOrigin.occupant slot) ↔ ∃ rest f,
      tagged? false "source" ["occupant", "aspect"] j = some ("occupant", rest) ∧ fields? ["slot"] rest = some f ∧
      required? f "slot" = some slot := by
  simp only [decode?, Option.bind_eq_bind, Option.bind_eq_some_iff, Prod.exists]
  constructor
  · rintro ⟨name, rest, htag, h⟩
    split at h
    · next heq =>
      cases heq
      obtain ⟨f, hf, hslot⟩ : ∃ f, fields? ["slot"] rest = some f ∧ required? f "slot" = some slot := by
        simpa [Option.bind_eq_some_iff] using h
      exact ⟨rest, f, htag, hf, hslot⟩
    · simp [Option.bind_eq_some_iff] at h
  · rintro ⟨rest, f, htag, hf, hslot⟩
    exact ⟨_, rest, htag, by simp [hf, hslot]⟩

/-- The reader takes what is no occupant for an aspect. -/
theorem NodeOrigin.decode?_aspect_iff {j : Json} {aspect : AspectId} {wire : WireId} {index : Nat} {params : Json} :
    decode? j = some (NodeOrigin.aspect aspect wire index params) ↔ ∃ name rest f, name ≠ "occupant" ∧
      tagged? false "source" ["occupant", "aspect"] j = some (name, rest) ∧
      fields? ["aspect", "wire", "index", "params"] rest = some f ∧ required? f "aspect" = some aspect ∧
      required? f "wire" = some wire ∧ required? f "index" = some index ∧
      optional? f "params" .null = some params := by
  simp only [decode?, Option.bind_eq_bind, Option.bind_eq_some_iff, Prod.exists]
  constructor
  · rintro ⟨name, rest, htag, h⟩
    split at h
    · simp [Option.bind_eq_some_iff] at h
    · next hne heq =>
      cases heq
      obtain ⟨f, hf⟩ : ∃ f, fields? ["aspect", "wire", "index", "params"] rest = some f ∧
          required? f "aspect" = some aspect ∧ required? f "wire" = some wire ∧ required? f "index" = some index ∧
          optional? f "params" .null = some params := by
        simpa [Option.bind_eq_some_iff] using h
      exact ⟨name, rest, f, hne, htag, hf⟩
  · rintro ⟨name, rest, f, hname, htag, hf, haspect, hwire, hindex, hparams⟩
    refine ⟨name, rest, htag, ?_⟩
    split
    · next heq =>
      cases heq
      exact absurd rfl hname
    · next heq =>
      cases heq
      simp [hf, haspect, hwire, hindex, hparams]

theorem lossless_nodeOrigin : Lossless NodeOrigin 1 NodeOrigin.Indexed where
  decode_encode {o} ho := by
    cases o with
    | occupant slot =>
      exact NodeOrigin.decode?_occupant_iff.2 ⟨_, _, tagged?_mkObj (by simp) (by simp), rfl,
        required?_of_find? (by simp [Entries.find?_erase_of_ne]) (lossless_string.decode_encode trivial)⟩
    | aspect aspect wire index params =>
      exact NodeOrigin.decode?_aspect_iff.2 ⟨"aspect", _, _, by simp, tagged?_mkObj (by simp) (by simp), rfl,
        required?_of_find? (by simp [Entries.find?_erase_of_ne]) (lossless_string.decode_encode trivial),
        required?_of_find? (by simp [Entries.find?_erase_of_ne]) (lossless_string.decode_encode trivial),
        required?_of_find? (by simp [Entries.find?_erase_of_ne]) (lossless_nat.decode_encode ho),
        optional?_of_find?_unless (by simp [Entries.find?_erase_of_ne]) isNull_iff.1
          (lossless_json.decode_encode trivial)⟩
  holds {j o} h := by
    cases o with
    | occupant slot => trivial
    | aspect aspect wire index params =>
      obtain ⟨_, _, f, -, -, -, -, -, hindex, -⟩ := NodeOrigin.decode?_aspect_iff.1 h
      exact lossless_nat.required_holds hindex
  readable {n j o} hn hj h := by
    cases o with
    | occupant slot =>
      obtain ⟨rest, f, htag, hf, -⟩ := NodeOrigin.decode?_occupant_iff.1 h
      obtain ⟨m, rfl, -⟩ := (hj.tagged? htag).fields? hf
      exact readable_mkObj <| .append (allReadable_member (.str _)) (allReadable_member (.str _))
    | aspect aspect wire index params =>
      obtain ⟨_, rest, f, -, htag, hf, -, -, hindex, hparams⟩ := NodeOrigin.decode?_aspect_iff.1 h
      obtain ⟨m, rfl, hm⟩ := (hj.tagged? htag).fields? hf
      have hindex := lossless_nat.required_readable (Nat.zero_le m) hm hindex
      have hparams := lossless_json.optional_readable (Nat.zero_le m) hm .null hparams
      refine readable_mkObj <| .append (.append (.append (.append ?_ ?_) ?_) ?_) ?_
      · exact allReadable_member (.str _)
      · exact allReadable_member (.str _)
      · exact allReadable_member (.str _)
      · exact allReadable_member hindex
      · exact allReadable_memberUnless hparams

/-! ## Nodes and edges -/

theorem Node.decode?_eq_some_iff {j : Json} {n : Node} :
    decode? j = some n ↔ ∃ f,
      fields? ["id", "kind", "template", "gadget", "slot", "wire", "pins", "tags", "params", "prov"] j = some f ∧
      required? f "id" = some n.id ∧ required? f "kind" = some n.kind ∧ required? f "template" = some n.template ∧
      optional? f "gadget" none = some n.gadget ∧ optional? f "slot" none = some n.slot ∧
      optional? f "wire" none = some n.wire ∧ required? f "pins" = some n.pins ∧ optional? f "tags" ∅ = some n.tags ∧
      optional? f "params" .null = some n.params ∧ required? f "prov" = some n.origins := by
  cases n
  simp [decode?, Option.bind_eq_some_iff]

def Node.Indexed (n : Node) : Prop := ∀ o ∈ n.origins, o.Indexed

theorem lossless_node : Lossless Node 3 Node.Indexed where
  decode_encode hn := Node.decode?_eq_some_iff.2 ⟨_, fields?_mkObj _ _,
    required?_of_find? (by simp) (lossless_string.decode_encode trivial),
    required?_of_find? (by simp) (lossless_nodeKind.decode_encode trivial),
    required?_of_find? (by simp) (lossless_string.decode_encode trivial),
    optional?_of_find?_ifSome (by simp) (lossless_option_string.decode_encode trivial),
    optional?_of_find?_ifSome (by simp) (lossless_option_string.decode_encode trivial),
    optional?_of_find?_ifSome (by simp) (lossless_option_string.decode_encode trivial),
    required?_of_find? (by simp) (lossless_pinSpec.dict.decode_encode fun _ _ _ => trivial),
    optional?_of_find?_unless (by simp) Dict.isEmpty_iff.1 (lossless_names.decode_encode trivial),
    optional?_of_find?_unless (by simp) isNull_iff.1 (lossless_json.decode_encode trivial),
    required?_of_find? (by simp) (lossless_nodeOrigin.list.decode_encode hn)⟩
  holds h := by
    obtain ⟨f, -, -, -, -, -, -, -, -, -, -, horigins⟩ := Node.decode?_eq_some_iff.1 h
    exact lossless_nodeOrigin.list.required_holds horigins
  readable hn hj h := by
    obtain ⟨f, hf, -, hkind, -, hgadget, hslot, hwire, hpins, -, hparams, horigins⟩ :=
      Node.decode?_eq_some_iff.1 h
    obtain ⟨m, rfl, hm⟩ := hj.fields? hf
    have hle : 2 ≤ m := by omega
    have hkind := lossless_nodeKind.required_readable (Nat.zero_le m) hm hkind
    have hgadget := lossless_option_string.optional_readable (Nat.zero_le m) hm .null hgadget
    have hslot := lossless_option_string.optional_readable (Nat.zero_le m) hm .null hslot
    have hwire := lossless_option_string.optional_readable (Nat.zero_le m) hm .null hwire
    have hpins := lossless_pinSpec.dict.required_readable hle hm hpins
    have hparams := lossless_json.optional_readable (Nat.zero_le m) hm .null hparams
    have horigins := lossless_nodeOrigin.list.required_readable hle hm horigins
    refine readable_mkObj <| .append (.append (.append (.append (.append (.append (.append (.append (.append
      ?_ ?_) ?_) ?_) ?_) ?_) ?_) ?_) ?_) ?_
    · exact allReadable_member (.str _)
    · exact allReadable_member hkind
    · exact allReadable_member (.str _)
    · exact allReadable_memberIfSome hgadget
    · exact allReadable_memberIfSome hslot
    · exact allReadable_memberIfSome hwire
    · exact allReadable_member hpins
    · exact allReadable_memberUnless (readable_encode_names _ (by omega))
    · exact allReadable_memberUnless hparams
    · exact allReadable_member horigins

theorem Edge.decode?_eq_some_iff {j : Json} {e : Edge} :
    decode? j = some e ↔ ∃ f,
      fields? ["id", "wire", "from", "from_pin", "to", "to_pin", "tags"] j = some f ∧
      required? f "id" = some e.id ∧ required? f "wire" = some e.wire ∧ required? f "from" = some e.source ∧
      required? f "from_pin" = some e.sourcePin ∧ required? f "to" = some e.target ∧
      required? f "to_pin" = some e.targetPin ∧ optional? f "tags" ∅ = some e.tags := by
  cases e
  simp [decode?, Option.bind_eq_some_iff]

theorem lossless_edge : Lossless Edge 2 fun _ => True where
  decode_encode _ := Edge.decode?_eq_some_iff.2 ⟨_, fields?_mkObj _ _,
    required?_of_find? (by simp) (lossless_string.decode_encode trivial),
    required?_of_find? (by simp) (lossless_string.decode_encode trivial),
    required?_of_find? (by simp) (lossless_string.decode_encode trivial),
    required?_of_find? (by simp) (lossless_string.decode_encode trivial),
    required?_of_find? (by simp) (lossless_string.decode_encode trivial),
    required?_of_find? (by simp) (lossless_string.decode_encode trivial),
    optional?_of_find?_unless (by simp) Dict.isEmpty_iff.1 (lossless_names.decode_encode trivial)⟩
  holds _ := trivial
  readable hn hj h := by
    obtain ⟨f, hf, -⟩ := Edge.decode?_eq_some_iff.1 h
    obtain ⟨m, rfl, -⟩ := hj.fields? hf
    refine readable_mkObj <| .append (.append (.append (.append (.append (.append ?_ ?_) ?_) ?_) ?_) ?_) ?_
    case refine_7 => exact allReadable_memberUnless (readable_encode_names _ (by omega))
    all_goals exact allReadable_member (.str _)

/-! ## Graphs -/

theorem Graph.decode?_eq_some_iff {j : Json} {g : Graph} :
    decode? j = some g ↔ ∃ f, fields? ["nodes", "edges", "deferred"] j = some f ∧
      required? f "nodes" = some g.nodes ∧ required? f "edges" = some g.edges ∧
      optional? f "deferred" ∅ = some g.deferred := by
  cases g
  simp [decode?, Option.bind_eq_some_iff]

/-- The positions that the nodes were made from fit the machine. -/
def Graph.Indexed (g : Graph) : Prop := ∀ id n, g.nodes.get? id = some n → n.Indexed

theorem lossless_graph : Lossless Graph 5 Graph.Indexed where
  decode_encode hg := Graph.decode?_eq_some_iff.2 ⟨_, fields?_mkObj _ _,
    required?_of_find? (by simp) (lossless_node.dict.decode_encode hg),
    required?_of_find? (by simp) (lossless_edge.dict.decode_encode fun _ _ _ => trivial),
    optional?_of_find?_unless (by simp) Dict.isEmpty_iff.1 (lossless_names.decode_encode trivial)⟩
  holds h := by
    obtain ⟨f, -, hnodes, -⟩ := Graph.decode?_eq_some_iff.1 h
    exact lossless_node.dict.required_holds hnodes
  readable hn hj h := by
    obtain ⟨f, hf, hnodes, hedges, -⟩ := Graph.decode?_eq_some_iff.1 h
    obtain ⟨m, rfl, hm⟩ := hj.fields? hf
    have hnodes := lossless_node.dict.required_readable (by omega) hm hnodes
    have hedges := lossless_edge.dict.required_readable (by omega) hm hedges
    exact readable_mkObj <| .append (.append (allReadable_member hnodes) (allReadable_member hedges))
      (allReadable_memberUnless (readable_encode_names _ (by omega)))

end Patchbay
