import Patchbay.Proofs.Graph.Contents
import Mathlib.Data.List.Perm.Basic

/-! Boards with their wires in another order, and with the aspects on each wire in another order. Which aspects stand on
a wire, whether they fit there and where the wire lands is the same in any order. -/

namespace Patchbay

/-- A wire with its aspects in another order. -/
def Wire.Shuffles (w w' : Wire) : Prop :=
  ∃ aspects : List AspectInstance, aspects.Perm w.aspects ∧ w' = { w with aspects }

/-- A board with its wires in another order, each with its aspects in another order. -/
def Board.Shuffles (b b' : Board) : Prop :=
  ∃ ws ws' : List Wire, ws.Perm b.wires ∧ List.Forall₂ Wire.Shuffles ws ws' ∧ b' = { b with wires := ws' }

theorem exists_mem_of_perm_forall₂ {α β : Type} {R : α → β → Prop} {l l' : List α} {m : List β} (hp : l'.Perm l)
    (h : List.Forall₂ R l' m) {x : α} (hx : x ∈ l) : ∃ y ∈ m, R x y := by
  have hx : x ∈ l' := hp.mem_iff.2 hx
  clear hp
  induction h with
  | nil => cases hx
  | cons hhead htail ih =>
    rcases List.mem_cons.1 hx with rfl | hx
    · exact ⟨_, List.mem_cons_self, hhead⟩
    · obtain ⟨y, hy, hr⟩ := ih hx
      exact ⟨y, List.mem_cons_of_mem _ hy, hr⟩

/-! ## Wires -/

namespace Wire.Shuffles

variable {w w' : Wire}

theorem symm (h : w.Shuffles w') : w'.Shuffles w := by
  obtain ⟨aspects, hperm, rfl⟩ := h
  exact ⟨w.aspects, hperm.symm, rfl⟩

theorem id_eq (h : w.Shuffles w') : w'.id = w.id := by
  obtain ⟨aspects, -, rfl⟩ := h
  rfl

theorem source_eq (h : w.Shuffles w') : w'.source = w.source := by
  obtain ⟨aspects, -, rfl⟩ := h
  rfl

theorem target_eq (h : w.Shuffles w') : w'.target = w.target := by
  obtain ⟨aspects, -, rfl⟩ := h
  rfl

theorem mem_aspects (h : w.Shuffles w') {a : AspectInstance} : a ∈ w'.aspects ↔ a ∈ w.aspects := by
  obtain ⟨aspects, hperm, rfl⟩ := h
  exact hperm.mem_iff

theorem perm_declared (h : w.Shuffles w') (aspect : AspectId) : (w'.declared aspect).Perm (w.declared aspect) := by
  obtain ⟨aspects, hperm, rfl⟩ := h
  exact hperm.filter _

theorem fits (h : w.Shuffles w') {r : AspectRegistry} (hf : w.Fits r) : w'.Fits r where
  allowed a ha := hf.allowed a (h.mem_aspects.1 ha)
  compatible a ha a' ha' := hf.compatible a (h.mem_aspects.1 ha) a' (h.mem_aspects.1 ha')

end Wire.Shuffles

theorem AspectRegistry.get?_manifestsOn {r : AspectRegistry} {w : Wire} {manifests : Dict Manifest}
    (h : r.manifestsOn w = .ok manifests) {aspect : AspectId} {m : Manifest} :
    manifests.get? aspect = some m ↔ (∃ a ∈ w.aspects, a.aspect = aspect) ∧ r.get? aspect = some m := by
  have hget {m : Manifest} (hm : manifests.get? aspect = some m) : r.get? aspect = some m :=
    (get?_of_manifestsOn h hm).resolve_right nofun
  rw [← mem_keys_of_manifestsOn h, Dict.mem_keys, Dict.contains_iff]
  constructor
  · exact fun hm => ⟨⟨m, hm⟩, hget hm⟩
  · rintro ⟨⟨m', hm'⟩, hm⟩
    rwa [Option.some.inj (hm.symm.trans (hget hm'))]

/-- The aspects on a wire are told from which there are, for they are sorted. -/
theorem Wire.Shuffles.aspectsOn {r : AspectRegistry} {w w' : Wire} (h : w.Shuffles w')
    {aspects : List (AspectId × Manifest)} (ha : r.aspectsOn w = .ok aspects) : r.aspectsOn w' = .ok aspects := by
  obtain ⟨manifests, hmanifests, hrest⟩ := ok_of_bind ha
  obtain ⟨manifests', hmanifests'⟩ : ∃ manifests', r.manifestsOn w' = .ok manifests' :=
    AspectRegistry.exists_manifestsOn.2 fun a ha =>
      AspectRegistry.exists_manifestsOn.1 ⟨manifests, hmanifests⟩ a (h.mem_aspects.1 ha)
  have hsame : manifests' = manifests := Dict.ext_get? fun aspect => Option.ext fun m => by
    simp only [AspectRegistry.get?_manifestsOn hmanifests', AspectRegistry.get?_manifestsOn hmanifests, h.mem_aspects]
  exact bind_eq_ok.2 ⟨manifests, hsame ▸ hmanifests', hrest⟩

/-! ## Boards -/

namespace Board.Shuffles

variable {b b' : Board} {r : AspectRegistry} {naming : Naming} {g g' : Graph} {w w' : Wire}

theorem symm (h : b.Shuffles b') : b'.Shuffles b := by
  obtain ⟨ws, ws', hperm, hws, rfl⟩ := h
  obtain ⟨mid, hmid, hperm'⟩ := List.perm_comp_forall₂ hperm.symm hws
  exact ⟨mid, b.wires, hperm', (hmid.imp fun _ _ h => h.symm).flip, rfl⟩

/-- Each wire stands on the other board, somewhere and somehow ordered. -/
theorem exists_wire (h : b.Shuffles b') (hw : w ∈ b.wires) : ∃ w' ∈ b'.wires, w.Shuffles w' := by
  obtain ⟨ws, ws', hperm, hws, rfl⟩ := h
  exact exists_mem_of_perm_forall₂ hperm hws hw

theorem perm_ids (h : b.Shuffles b') : (b'.wires.map (·.id)).Perm (b.wires.map (·.id)) := by
  obtain ⟨ws, ws', hperm, hws, rfl⟩ := h
  have hids : ws'.map (·.id) = ws.map (·.id) := by
    rw [← List.forall₂_eq_eq_eq, List.forall₂_map_left_iff, List.forall₂_map_right_iff]
    exact (hws.imp fun _ _ h => h.id_eq).flip
  exact (List.Perm.of_eq hids).trans (hperm.map _)

theorem lands_iff (h : b.Shuffles b') (hr : w.Shuffles w') : b'.Lands w' ↔ b.Lands w := by
  obtain ⟨ws, ws', -, -, rfl⟩ := h
  rw [Lands, Lands, hr.source_eq, hr.target_eq]
  rfl

theorem isSeat_iff (h : b.Shuffles b') {n : Node} : b'.IsSeat naming n ↔ b.IsSeat naming n := by
  obtain ⟨ws, ws', -, -, rfl⟩ := h
  rfl

theorem gadgetNodes_eq (h : b.Shuffles b') : b'.gadgetNodes naming = b.gadgetNodes naming := by
  obtain ⟨ws, ws', -, -, rfl⟩ := h
  rfl

theorem validate (h : b.Shuffles b') (hv : b.validate = .ok ()) : b'.validate = .ok () := by
  obtain ⟨hslots, hoccupants, hwires⟩ := validate_eq_ok.1 hv
  obtain ⟨hends, hnodup⟩ := checkWires_eq_ok.1 hwires
  have hends' : ∀ w' ∈ b'.wires, b.checkSource w' = .ok () ∧ b.checkTarget w' = .ok () := by
    intro w' hw'
    obtain ⟨w, hw, hr⟩ := h.symm.exists_wire hw'
    have hsource := (hends w hw).1
    have htarget := (hends w hw).2
    unfold checkSource at hsource ⊢
    unfold checkTarget at htarget ⊢
    rw [hr.id_eq, hr.source_eq] at hsource
    rw [hr.id_eq, hr.target_eq] at htarget
    exact ⟨hsource, htarget⟩
  have hnodup' : (b'.wires.map (·.id)).Nodup := h.perm_ids.nodup_iff.2 hnodup
  obtain ⟨ws, ws', -, -, rfl⟩ := h
  exact validate_eq_ok.2 ⟨hslots, hoccupants, checkWires_eq_ok.2 ⟨hends', hnodup'⟩⟩

theorem exists_realize (h : b.Shuffles b') (hg : ∃ g, b.realize r naming = .ok g) :
    ∃ g', b'.realize r naming = .ok g' := by
  obtain ⟨hnodes, hfits⟩ := exists_realize_iff.1 hg
  refine exists_realize_iff.2 ⟨h.gadgetNodes_eq ▸ hnodes, fun w' hw' hlands => ?_⟩
  obtain ⟨w, hw, hr⟩ := h.symm.exists_wire hw'
  exact hr.symm.fits (hfits w hw ((h.lands_iff hr.symm).1 hlands))

/-- In another order a board is realized too, or fails to be too. -/
theorem realize_cases (h : b.Shuffles b') (r : AspectRegistry) (naming : Naming) :
    (∃ e e', b.realize r naming = .error e ∧ b'.realize r naming = .error e') ∨
      ∃ g g', b.realize r naming = .ok g ∧ b'.realize r naming = .ok g' := by
  cases hg : b.realize r naming with
  | error e =>
    cases hg' : b'.realize r naming with
    | error e' => exact .inl ⟨e, e', rfl, rfl⟩
    | ok g' =>
      obtain ⟨g, hok⟩ := h.symm.exists_realize ⟨g', hg'⟩
      cases hg.symm.trans hok
  | ok g =>
    obtain ⟨g', hg'⟩ := h.exists_realize ⟨g, hg⟩
    exact .inr ⟨g, g', rfl, hg'⟩

theorem get?_deferred (h : b.Shuffles b') (hg : b.realize r naming = .ok g) (hg' : b'.realize r naming = .ok g')
    {id : WireId} {u : Unit} (hd : g.deferred.get? id = some u) : g'.deferred.get? id = some u := by
  obtain ⟨w, hw, rfl, hno⟩ := (contains_deferred_iff hg).1 (Dict.contains_of_get? hd)
  obtain ⟨w', hw', hr⟩ := h.exists_wire hw
  obtain ⟨_, hd'⟩ := Dict.contains_iff.1
    ((contains_deferred_iff hg').2 ⟨w', hw', hr.id_eq, (h.lands_iff hr).not.2 hno⟩)
  exact hd'

end Board.Shuffles

end Patchbay
