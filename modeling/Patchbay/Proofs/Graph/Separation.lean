import Patchbay.Proofs.Graph.Shape
import Mathlib.Data.List.Perm.Subperm

/-! What identities that are made from text tell apart. The parts of an identity are joined with a NUL between any two
and none in them is escaped, so that a name and a qualifier are told from others only together. -/

namespace Patchbay

namespace Naming

/-- A name and what qualifies it, as they stand in the text of an identity. -/
def qualified (name qualifier : String) : String := name ++ "\x00" ++ qualifier

theorem nul_notMem_text (v : Json) : '\x00' ∉ v.text.toList :=
  fun h => absurd (Json.printable_text v '\x00' h) (by decide)

/-- Where names have no NUL in them, they are told from what qualifies them. -/
theorem qualified_inj {a b c d : String} (ha : '\x00' ∉ a.toList) (hc : '\x00' ∉ c.toList)
    (h : qualified a b = qualified c d) : a = c ∧ b = d := by
  have hchars : a.toList ++ '\x00' :: b.toList = c.toList ++ '\x00' :: d.toList := by
    simpa [qualified, String.toList_append] using congrArg String.toList h
  obtain ⟨hname, hqualifier⟩ := append_cons_inj ha hc hchars
  exact ⟨String.toList_injective hname, String.toList_injective hqualifier⟩

variable {condense : String → String} {undotted : ∀ text, '.' ∉ (condense text).toList}

theorem text_eq_of_identify (hc : Function.Injective condense) {kind : String} {ps qs : List String}
    (h : (ofText condense undotted).identify kind ps = (ofText condense undotted).identify kind qs) :
    "\x00".intercalate ps = "\x00".intercalate qs :=
  hc ((String.append_right_inj kind).1 h)

/-- The parameters are last and have no NUL in their text, so that they are told from what is in front of them. -/
theorem identify_eq_iff (hc : Function.Injective condense) {kind tag a b a' b' : String} {p p' : Json} :
    (ofText condense undotted).identify kind [tag, a, b, p.text] =
        (ofText condense undotted).identify kind [tag, a', b', p'.text] ↔
      qualified a b = qualified a' b' ∧ p = p' := by
  have htext (a b : String) (p : Json) :
      ("\x00".intercalate [tag, a, b, p.text]).toList =
        (tag ++ "\x00").toList ++ ((qualified a b).toList ++ '\x00' :: p.text.toList) := by
    simp [String.intercalate_cons_cons, qualified, String.toList_append]
  constructor
  · intro h
    have hchars := congrArg String.toList (text_eq_of_identify hc h)
    rw [htext, htext] at hchars
    obtain ⟨hname, hparams⟩ := append_cons_inj_right (nul_notMem_text p) (nul_notMem_text p')
      (List.append_cancel_left hchars)
    exact ⟨String.toList_injective hname, Json.text_injective (String.toList_injective hparams)⟩
  · rintro ⟨hname, rfl⟩
    have hchars : "\x00".intercalate [tag, a, b, p.text] = "\x00".intercalate [tag, a', b', p.text] :=
      String.toList_injective (by rw [htext, htext, hname])
    exact congrArg (fun text => kind ++ condense text) hchars

theorem gadgetNode_ne_shimNode (hc : Function.Injective condense) (o : Occupant) (wire : WireId) (aspect : AspectId)
    (params : Json) :
    (ofText condense undotted).gadgetNode o ≠ (ofText condense undotted).shimNode wire aspect params := by
  intro h
  have hchars := congrArg (fun s => s.toList.head?) (text_eq_of_identify hc h)
  simp [String.intercalate_cons_cons, String.toList_append] at hchars

/-! ## A condensing of text -/

/-- Text condensed to its spelling, for which no two texts have one digest. -/
def spelling (text : String) : String := .ofList (spell text)

theorem spelling_injective : Function.Injective spelling := by
  intro s t h
  have hdigest : spelled.digest [s] = spelled.digest [t] := by
    simpa [spelled, spelling] using h
  exact List.head_eq_of_cons_eq (faithful_spelled hdigest)

theorem undotted_spelling (text : String) : '.' ∉ (spelling text).toList := by
  rw [spelling, String.toList_ofList]
  exact point_notMem_spell text

end Naming

theorem length_eq_iff_nodup {α : Type} {l l' : List α} (hn : l.Nodup) (h : ∀ x, x ∈ l ↔ x ∈ l') :
    l.length = l'.length ↔ l'.Nodup := by
  constructor
  · intro hlength
    have hsub : l.Subperm l' := List.subperm_of_subset hn fun x hx => (h x).1 hx
    exact (List.Subperm.perm_of_length_le hsub hlength.ge).nodup_iff.1 hn
  · intro hn'
    exact ((List.perm_ext_iff_of_nodup hn hn').2 h).length_eq

namespace Board

variable {b : Board} {r : AspectRegistry} {g : Graph} {condense : String → String}
  {undotted : ∀ text, '.' ∉ (condense text).toList}

/-- A wire of the board comes to a shim for one of its aspects. -/
def Shimmed (b : Board) (r : AspectRegistry) (naming : Naming) (w : Wire) (aspect : AspectId) (n : Node) : Prop :=
  ∃ s m, b.Strung r naming w s ∧ n ∈ s.shims ∧ n.ShimOf w aspect m

theorem Shimmed.id_eq {naming : Naming} {w : Wire} {aspect : AspectId} {n : Node} (h : b.Shimmed r naming w aspect n) :
    n.id = naming.shimNode w.id aspect n.params := by
  obtain ⟨s, m, hs, hmem, hshim⟩ := h
  obtain ⟨_, _, _, -, -, hs⟩ := hs.ofWire
  obtain ⟨aspect', m', hshim', hid⟩ := Strand.shim_of_mem hs hmem
  rwa [hshim.aspect_eq hshim']

/-- The gadgets in the graph have the identities of the occupants. -/
theorem mem_ids_gadgets (hc : Function.Injective condense) (hg : b.realize r (.ofText condense undotted) = .ok g)
    {id : NodeId} : id ∈ g.gadgets.map (·.id) ↔
      id ∈ b.seats.map fun x => (Naming.ofText condense undotted).gadgetNode x.2.2 := by
  have hgrounds := grounds_of_realize hg
  simp only [List.mem_map, Graph.gadgets, List.mem_filter, decide_eq_true_iff]
  constructor
  · rintro ⟨n, ⟨hmem, hk⟩, rfl⟩
    obtain ⟨id, hget⟩ := Dict.mem_values.1 hmem
    rcases hgrounds.stems id n hget with ⟨slot, sl, p, o, -, -, ho, rfl⟩ | ⟨_, _, _, _, -, hshim, -⟩
    · obtain ⟨i, hseat⟩ := mem_seats_of_seated ho
      exact ⟨_, hseat, rfl⟩
    · rw [hk] at hshim
      cases hshim
  · rintro ⟨⟨slot, i, o⟩, hseat, rfl⟩
    obtain ⟨nodes, hnodes, hin, -⟩ := parts_of_realize hg
    obtain ⟨m, hm, hid⟩ := List.mem_map.1 ((mem_gadgetNodes hnodes).2 slot o (seated_of_mem_seats hseat))
    obtain ⟨n, hget⟩ := Dict.contains_iff.1 (hin m hm)
    have hid : n.id = _ := (hgrounds.node_id _ n hget).trans hid
    refine ⟨n, ⟨Dict.mem_values.2 ⟨_, hget⟩, ?_⟩, hid⟩
    rcases hgrounds.stems _ n hget with hs | ⟨wire, aspect, params, _, he, -⟩
    · exact hs.kind_eq
    · exact absurd (hid.symm.trans he) (Naming.gadgetNode_ne_shimNode hc o wire aspect params)

theorem length_gadgets_eq_iff (hc : Function.Injective condense) (hv : b.validate = .ok ())
    (hg : b.realize r (.ofText condense undotted) = .ok g) :
    g.gadgets.length = b.seats.length ↔ ∀ slot slot' o o', b.Seated slot o → b.Seated slot' o' →
      Naming.qualified o.id o.template = Naming.qualified o'.id o'.template → o.params = o'.params → o = o' := by
  have hkeys : g.nodes.values.map (·.id) = g.nodes.keys := Dict.map_values (grounds_of_realize hg).node_id
  have hnodup : (g.gadgets.map (·.id)).Nodup :=
    (hkeys ▸ g.nodes.nodup_keys).sublist (List.filter_sublist.map Node.id)
  have hlength := length_eq_iff_nodup hnodup fun _ => mem_ids_gadgets hc hg
  rw [List.length_map, List.length_map] at hlength
  rw [hlength, List.nodup_map_iff_inj_on (nodup_seats hv).of_map]
  constructor
  · intro h slot slot' o o' ho ho' hname hparams
    obtain ⟨i, hseat⟩ := mem_seats_of_seated ho
    obtain ⟨i', hseat'⟩ := mem_seats_of_seated ho'
    exact congrArg (fun x => x.2.2) (h _ hseat _ hseat' ((Naming.identify_eq_iff hc).2 ⟨hname, hparams⟩))
  · rintro h ⟨slot, i, o⟩ hseat ⟨slot', i', o'⟩ hseat' hid
    obtain ⟨hname, hparams⟩ := (Naming.identify_eq_iff hc).1 hid
    have ho := h slot slot' o o' (seated_of_mem_seats hseat) (seated_of_mem_seats hseat') hname hparams
    exact List.inj_on_of_nodup_map (nodup_seats hv) hseat hseat' (congrArg Occupant.id ho)

theorem Shimmed.id_eq_iff (hc : Function.Injective condense) {w w' : Wire} {aspect aspect' : AspectId} {n n' : Node}
    (h : b.Shimmed r (.ofText condense undotted) w aspect n)
    (h' : b.Shimmed r (.ofText condense undotted) w' aspect' n') :
    n.id = n'.id ↔ Naming.qualified w.id aspect = Naming.qualified w'.id aspect' ∧ n.params = n'.params := by
  rw [h.id_eq, h'.id_eq]
  exact Naming.identify_eq_iff hc

/-- Occupants share a node where they have the same parameters and their names and templates are the same text, and so
do shims with the names of their wires and aspects. Where gadgets have no NUL in their names there is a node for each
occupant, and where wires have none no two of them share a shim, nor do aspects on one. -/
theorem realize_separates (hc : Function.Injective condense) (hv : b.validate = .ok ())
    (hg : b.realize r (.ofText condense undotted) = .ok g) :
    (g.gadgets.length = b.seats.length ↔ ∀ slot slot' o o', b.Seated slot o → b.Seated slot' o' →
        Naming.qualified o.id o.template = Naming.qualified o'.id o'.template → o.params = o'.params → o = o') ∧
      (∀ w w' aspect aspect' n n', b.Shimmed r (.ofText condense undotted) w aspect n →
        b.Shimmed r (.ofText condense undotted) w' aspect' n' →
        (n.id = n'.id ↔ Naming.qualified w.id aspect = Naming.qualified w'.id aspect' ∧ n.params = n'.params)) ∧
      ((∀ slot o, b.Seated slot o → '\x00' ∉ o.id.toList) → g.gadgets.length = b.seats.length) ∧
      ((∀ w ∈ b.wires, '\x00' ∉ w.id.toList) → ∀ w w' aspect aspect' n n',
        b.Shimmed r (.ofText condense undotted) w aspect n → b.Shimmed r (.ofText condense undotted) w' aspect' n' →
          n.id = n'.id → w = w' ∧ aspect = aspect') := by
  have hgadgets := length_gadgets_eq_iff hc hv hg
  refine ⟨hgadgets, fun _ _ _ _ _ _ h h' => h.id_eq_iff hc h', fun hplain => hgadgets.2 ?_, fun hplain => ?_⟩
  · intro slot slot' o o' ho ho' hname _
    have hid := (Naming.qualified_inj (hplain slot o ho) (hplain slot' o' ho') hname).1
    exact occupant_eq_of_validate hv (slot_eq_of_validate hv ho ho' hid ▸ ho) ho' hid
  · intro w w' aspect aspect' n n' h h' hid
    obtain ⟨hname, -⟩ := (h.id_eq_iff hc h').1 hid
    obtain ⟨s, _, hs, -⟩ := h
    obtain ⟨s', _, hs', -⟩ := h'
    obtain ⟨hwire, haspect⟩ := Naming.qualified_inj (hplain w hs.1) (hplain w' hs'.1) hname
    exact ⟨(hs.unique hv hs' hwire).1, haspect⟩

/-- There is a node for either of two gadgets without a NUL in their names. -/
theorem realize_separates_spanned : ∃ g,
    spannedBoard.realize .builtin (.ofText Naming.spelling Naming.undotted_spelling) = .ok g ∧ g.gadgets.length = 2 := by
  obtain ⟨g, hg⟩ := exists_realize_spannedBoard (.ofText Naming.spelling Naming.undotted_spelling)
  have hplain : ∀ x ∈ spannedBoard.seats, '\x00' ∉ x.2.2.id.toList := by decide +kernel
  obtain ⟨-, -, hlength, -⟩ := realize_separates Naming.spelling_injective validate_spannedBoard hg
  refine ⟨g, hg, (hlength fun slot o ho => ?_).trans (by decide +kernel)⟩
  obtain ⟨i, hseat⟩ := mem_seats_of_seated ho
  exact hplain _ hseat

/-- Two gadgets of which the one has in its name what the other has in front of its template. -/
def twinBoard : Board where
  id := "b"
  slots := .ofList [("s", { requires := "P" })]
  pinouts := .ofList [("P", { inputs := ["in"], outputs := ["out"] })]
  occupants := .ofList [("s", [{ id := "g\x00tap", template := "passthrough" },
    { id := "g", template := "tap\x00passthrough" }])]

/-- The two gadgets come to one node, though no two texts have one digest. -/
theorem twins_share_node : ∃ condense undotted g, Function.Injective condense ∧
    twinBoard.normalize (.ofText condense undotted) = twinBoard ∧ twinBoard.validate = .ok () ∧
      twinBoard.realize .builtin (.ofText condense undotted) = .ok g ∧ twinBoard.seats.length = 2 ∧
        g.gadgets.length = 1 := by
  have hgraph : (twinBoard.realize .builtin (.ofText Naming.spelling Naming.undotted_spelling)).toOption.any
      (fun g => g.gadgets.length = 1) = true := by decide +kernel
  obtain ⟨g, hg, hlength⟩ := (Option.any_eq_true ..).1 hgraph
  exact ⟨Naming.spelling, Naming.undotted_spelling, g, Naming.spelling_injective, rfl, by decide +kernel,
    toOption_eq_some.1 hg, by decide +kernel, of_decide_eq_true hlength⟩

end Board

end Patchbay
