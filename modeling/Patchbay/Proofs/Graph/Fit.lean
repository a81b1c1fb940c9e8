import Patchbay.Proofs.Graph.Anchor

/-! Which wires can be strung: those whose aspects are registered, may stand on wires, and may stand together. -/

namespace Patchbay

/-- The aspects of a wire are registered and may stand on wires, and no trait that one of them requires is forbidden by
one of them. -/
structure Wire.Fits (w : Wire) (r : AspectRegistry) : Prop where
  allowed : ∀ a ∈ w.aspects, ∃ m, r.get? a.aspect = some m ∧ m.allows .wire = true
  compatible : ∀ a ∈ w.aspects, ∀ a' ∈ w.aspects, ∀ m m', r.get? a.aspect = some m → r.get? a'.aspect = some m' →
    ∀ trait, m.requires.contains trait = true → m'.forbids.contains trait = false

namespace AspectRegistry

variable {r : AspectRegistry}

theorem manifestOnWire_eq_ok {aspect : AspectId} {m : Manifest} :
    r.manifestOnWire aspect = .ok m ↔ r.get? aspect = some m ∧ m.allows .wire = true := by
  unfold manifestOnWire
  split
  · next h => simp [h]
  · next m' h =>
    rw [h, Option.some.injEq]
    split
    · next hallows =>
      rw [Except.ok.injEq]
      exact ⟨fun he => ⟨he, he ▸ hallows⟩, And.left⟩
    · next hallows =>
      refine ⟨nofun, ?_⟩
      rintro ⟨rfl, h'⟩
      exact absurd h' hallows

/-! ## Traits -/

theorem contains_noteTraits {noted : Dict AspectId} {traits : Names} {id : AspectId} {trait : String} :
    (noteTraits noted traits id).contains trait = true ↔
      traits.contains trait = true ∨ noted.contains trait = true := by
  rw [noteTraits, ← Dict.mem_keys (d := traits)]
  generalize traits.keys = l
  induction l generalizing noted with
  | nil => simp
  | cons t rest ih =>
    rw [List.foldl_cons, ih, List.mem_cons]
    split
    · next ht =>
      constructor
      · exact fun h => h.imp_left .inr
      · rintro ((rfl | h) | h)
        · exact .inr ht
        · exact .inl h
        · exact .inr h
    · rw [Dict.contains_insert, or_left_comm, or_assoc]

theorem contains_foldl_noteTraits (traits : Manifest → Names) {manifests : List (AspectId × Manifest)} {trait : String} :
    (manifests.foldl (fun noted x => noteTraits noted (traits x.2) x.1) ∅).contains trait = true ↔
      ∃ x ∈ manifests, (traits x.2).contains trait = true := by
  -- the fold starts anywhere for the induction
  suffices h : ∀ noted : Dict AspectId,
      (manifests.foldl (fun noted x => noteTraits noted (traits x.2) x.1) noted).contains trait = true ↔
        (∃ x ∈ manifests, (traits x.2).contains trait = true) ∨ noted.contains trait = true from
    (h ∅).trans (or_iff_left Bool.false_ne_true)
  induction manifests with
  | nil => simp
  | cons x rest ih =>
    intro noted
    rw [List.foldl_cons, ih, contains_noteTraits, List.exists_mem_cons_iff, or_left_comm, or_assoc]

theorem mem_of_manifestsOf {ids : List AspectId} {manifests : List (AspectId × Manifest)}
    (h : r.manifestsOf ids = .ok manifests) {x : AspectId × Manifest} :
    x ∈ manifests ↔ x.1 ∈ ids ∧ r.get? x.1 = some x.2 := by
  obtain ⟨hto, hof⟩ := mem_of_mapM h
  constructor
  · intro hx
    obtain ⟨id, hid, he⟩ := hto x hx
    split at he
    · next m hm =>
      cases he
      exact ⟨hid, hm⟩
    · cases he
  · rintro ⟨hid, hm⟩
    obtain ⟨y, hy, he⟩ := hof x.1 hid
    rw [hm] at he
    cases he
    exact hy

theorem exists_manifestsOf {ids : List AspectId} :
    (∃ manifests, r.manifestsOf ids = .ok manifests) ↔ ∀ id ∈ ids, ∃ m, r.get? id = some m := by
  constructor
  · rintro ⟨manifests, h⟩ id hid
    obtain ⟨y, -, he⟩ := (mem_of_mapM h).2 id hid
    split at he
    · next m hm => exact ⟨m, hm⟩
    · cases he
  · intro h
    refine mapM_eq_ok fun id hid => ?_
    obtain ⟨m, hm⟩ := h id hid
    exact ⟨(id, m), by rw [hm]⟩

theorem checkCompatible_eq_ok {ids : List AspectId} : r.checkCompatible ids = .ok () ↔
    (∀ id ∈ ids, ∃ m, r.get? id = some m) ∧
      ∀ id ∈ ids, ∀ id' ∈ ids, ∀ m m', r.get? id = some m → r.get? id' = some m' →
        ∀ trait, m.requires.contains trait = true → m'.forbids.contains trait = false := by
  rw [checkCompatible, bind_eq_ok, ← exists_manifestsOf]
  constructor
  · rintro ⟨manifests, hms, h⟩
    refine ⟨⟨manifests, hms⟩, fun id hid id' hid' m m' hm hm' trait hneeds => ?_⟩
    have hneeded := (contains_foldl_noteTraits Manifest.requires).2 ⟨(id, m), (mem_of_manifestsOf hms).2 ⟨hid, hm⟩, hneeds⟩
    obtain ⟨needer, hneeder⟩ := Dict.contains_iff.1 hneeded
    have hnone := ok_of_forM h (trait, needer) (Dict.get?_eq_some_iff.1 hneeder)
    rw [Bool.eq_false_iff]
    intro hforbids
    obtain ⟨forbidder, hforbidder⟩ := Dict.contains_iff.1 <| (contains_foldl_noteTraits Manifest.forbids).2
      ⟨(id', m'), (mem_of_manifestsOf hms).2 ⟨hid', hm'⟩, hforbids⟩
    simp only [hforbidder] at hnone
    cases hnone
  · rintro ⟨⟨manifests, hms⟩, h⟩
    refine ⟨manifests, hms, forM_eq_ok ?_⟩
    rintro ⟨trait, needer⟩ hneeder
    obtain ⟨x, hx, hneeds⟩ := (contains_foldl_noteTraits Manifest.requires).1
      (Dict.contains_of_get? (Dict.get?_eq_some_iff.2 hneeder))
    obtain ⟨hid, hm⟩ := (mem_of_manifestsOf hms).1 hx
    dsimp only
    split
    · next forbidder hforbidder =>
      obtain ⟨x', hx', hforbids⟩ := (contains_foldl_noteTraits Manifest.forbids).1 (Dict.contains_of_get? hforbidder)
      obtain ⟨hid', hm'⟩ := (mem_of_manifestsOf hms).1 hx'
      have hno := h x.1 hid x'.1 hid' x.2 x'.2 hm hm' trait hneeds
      rw [hforbids] at hno
      cases hno
    · rfl

/-! ## The aspects of a wire -/

theorem contains_of_manifestsOn {l : List AspectInstance} {d d' : Dict Manifest}
    (h : l.foldlM (fun acc a => do return acc.insert a.aspect (← r.manifestOnWire a.aspect)) d = .ok d')
    {aspect : AspectId} : d'.contains aspect = true ↔ aspect ∈ l.map (·.aspect) ∨ d.contains aspect = true := by
  induction l generalizing d with
  | nil =>
    cases h
    simp
  | cons a rest ih =>
    rw [List.foldlM_cons] at h
    obtain ⟨d₁, h₁, hrest⟩ := ok_of_bind h
    obtain ⟨m, -, h₁⟩ := ok_of_bind h₁
    cases h₁
    rw [ih hrest, Dict.contains_insert, List.map_cons, List.mem_cons, or_left_comm, or_assoc]

theorem mem_keys_of_manifestsOn {w : Wire} {manifests : Dict Manifest} (h : r.manifestsOn w = .ok manifests)
    {aspect : AspectId} : aspect ∈ manifests.keys ↔ ∃ a ∈ w.aspects, a.aspect = aspect := by
  rw [Dict.mem_keys, contains_of_manifestsOn h, List.mem_map]
  exact or_iff_left Bool.false_ne_true

theorem exists_manifestsOn {w : Wire} : (∃ manifests, r.manifestsOn w = .ok manifests) ↔
    ∀ a ∈ w.aspects, ∃ m, r.get? a.aspect = some m ∧ m.allows .wire = true := by
  simp only [← manifestOnWire_eq_ok]
  constructor
  · rintro ⟨manifests, h⟩ a ha
    obtain ⟨_, _, hstep⟩ := ok_of_foldlM h a ha
    obtain ⟨m, hm, -⟩ := ok_of_bind hstep
    exact ⟨m, hm⟩
  · intro h
    refine foldlM_eq_ok fun d a ha => ?_
    obtain ⟨m, hm⟩ := h a ha
    exact ⟨_, bind_eq_ok.2 ⟨m, hm, rfl⟩⟩

/-- The aspects of a wire can be told where they fit on it. -/
theorem exists_aspectsOn {w : Wire} : (∃ aspects, r.aspectsOn w = .ok aspects) ↔ w.Fits r := by
  constructor
  · rintro ⟨aspects, h⟩
    obtain ⟨manifests, hmanifests, h⟩ := ok_of_bind h
    obtain ⟨_, hcompatible, -⟩ := ok_of_bind h
    have hcompatible := (checkCompatible_eq_ok.1 (ok_of_mapError hcompatible)).2
    have hkey : ∀ a ∈ w.aspects, a.aspect ∈ manifests.keys :=
      fun a ha => (mem_keys_of_manifestsOn hmanifests).2 ⟨a, ha, rfl⟩
    exact ⟨exists_manifestsOn.1 ⟨manifests, hmanifests⟩, fun a ha a' ha' => hcompatible _ (hkey a ha) _ (hkey a' ha')⟩
  · rintro ⟨hallowed, hcompatible⟩
    obtain ⟨manifests, hmanifests⟩ := exists_manifestsOn.2 hallowed
    have hcheck : r.checkCompatible manifests.keys = .ok () := by
      refine checkCompatible_eq_ok.2 ⟨fun id hid => ?_, fun id hid id' hid' => ?_⟩
      · obtain ⟨a, ha, rfl⟩ := (mem_keys_of_manifestsOn hmanifests).1 hid
        obtain ⟨m, hm, -⟩ := hallowed a ha
        exact ⟨m, hm⟩
      · obtain ⟨a, ha, rfl⟩ := (mem_keys_of_manifestsOn hmanifests).1 hid
        obtain ⟨a', ha', rfl⟩ := (mem_keys_of_manifestsOn hmanifests).1 hid'
        exact hcompatible a ha a' ha'
    exact ⟨_, bind_eq_ok.2 ⟨manifests, hmanifests, bind_eq_ok.2 ⟨(), mapError_eq_ok.2 hcheck, rfl⟩⟩⟩

end AspectRegistry

instance Wire.decidableFits (w : Wire) (r : AspectRegistry) : Decidable (w.Fits r) :=
  decidable_of_iff ((r.aspectsOn w).toOption.isSome = true) <| by
    rw [← AspectRegistry.exists_aspectsOn, Option.isSome_iff_exists]
    simp only [toOption_eq_some]

end Patchbay
