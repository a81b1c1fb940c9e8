import Patchbay.Proofs.Board.Normal
import Patchbay.Proofs.Graph.Identity
import Mathlib

/-! How the wires of a board are named. Where a wire without an identity has candidates enough, the search for a free
one ends, and the wire shares the identity that it is given with no other. -/

namespace Patchbay

namespace Names

variable {taken : Names}

theorem size_le_of_subset {l : List String} (h : taken.keys ⊆ l) : taken.size ≤ l.length := by
  have hle := (List.subperm_of_subset taken.nodup_keys h).length_le
  rwa [Dict.keys, List.length_map] at hle

theorem size_add_le (n : String) : (taken.add n).size ≤ taken.size + 1 := by
  have hle : (taken.add n).size ≤ (n :: taken.keys).length :=
    size_le_of_subset fun x hx => List.mem_cons.2 ((Dict.mem_keys_insert taken).1 hx)
  rwa [List.length_cons, Dict.keys, List.length_map] at hle

/-- Of more names than are taken, one is free. -/
theorem exists_free {names : Nat → String} {n : Nat} (hn : taken.size < n)
    (hnames : ∀ i < n, ∀ j < n, names i = names j → i = j) : ∃ i < n, taken.contains (names i) = false := by
  by_contra hno
  have hsub : (List.range n).map names ⊆ taken.keys := by
    intro x hx
    obtain ⟨i, hlt, rfl⟩ := List.mem_map.1 hx
    exact Dict.mem_keys.2 ((Bool.not_eq_false _).mp fun hi => hno ⟨i, List.mem_range.1 hlt, hi⟩)
  have hnodup : ((List.range n).map names).Nodup := List.nodup_range.map_on fun i hi j hj =>
    hnames i (List.mem_range.1 hi) j (List.mem_range.1 hj)
  have hle := (List.subperm_of_subset hnodup hsub).length_le
  rw [List.length_map, List.length_range, Dict.keys, List.length_map] at hle
  exact Nat.not_lt.2 hle hn

end Names

/-- No two candidates of a wire are alike under a naming that tells all parts apart. -/
theorem Naming.Faithful.wire_inj {n : Naming} (hn : n.Faithful) {source target : Endpoint} {i j : Nat}
    (h : n.wire source target i = n.wire source target j) : i = j := by
  have hparts := List.append_cancel_left (hn.parts_eq h)
  split at hparts <;> split at hparts
  · next hi hj => rw [hi, hj]
  · cases hparts
  · cases hparts
  · exact Nat.repr_inj.1 (List.head_eq_of_cons_eq hparts)

namespace Board

/-! ## One wire after the other -/

/-- How wires are named in order: an identity that is given stays, and the search for any other has ended. -/
inductive Named (naming : Naming) : Names → List Wire → List Wire → Prop
  | nil {taken : Names} : Named naming taken [] []
  | given {taken : Names} {w : Wire} {ws ws' : List Wire} (hid : w.id ≠ "") (h : Named naming taken ws ws') :
    Named naming taken (w :: ws) (w :: ws')
  | derived {taken : Names} {w : Wire} {ws ws' : List Wire} {id : WireId} (hid : w.id = "")
    (hsearch : firstFree? taken (naming.wire w.source w.target) occurrences 0 = some id)
    (h : Named naming (taken.add id) ws ws') : Named naming taken (w :: ws) ({ w with id } :: ws')

/-- A wire with an identity, which is its own if it had one. -/
def Completes (w w' : Wire) : Prop := w' = { w with id := w'.id } ∧ w'.id ≠ "" ∧ (w.id ≠ "" → w'.id = w.id)

variable {naming : Naming} {b : Board} {taken : Names} {ws ws' : List Wire}

/-- The searches end as long as no wire runs out of candidates; each of them takes up one identity more. -/
theorem named_nameWires {n : Nat}
    (hcandidates : ∀ w ∈ ws, w.id = "" → ∀ taken : Names, taken.size < n →
      ∃ i < occurrences, taken.contains (naming.wire w.source w.target i) = false)
    (hn : taken.size + ws.countP (fun w => w.id = "") ≤ n) : Named naming taken ws (nameWires naming taken ws) := by
  induction ws generalizing taken with
  | nil => exact .nil
  | cons w rest ih =>
    have hrest := fun v hv => hcandidates v (List.mem_cons_of_mem w hv)
    rw [nameWires]
    split
    · next hid =>
      rw [List.countP_cons_of_pos (by simpa using hid)] at hn
      obtain ⟨id, hsearch⟩ := exists_firstFree? (hcandidates w List.mem_cons_self hid taken (by omega))
      have hsize := taken.size_add_le id
      rw [freeWireId_of_firstFree? hsearch]
      exact .derived hid hsearch (ih hrest (by omega))
    · next hid =>
      rw [List.countP_cons_of_neg (by simpa using hid)] at hn
      exact .given hid (ih hrest hn)

theorem Named.completes (h : Named naming taken ws ws') : List.Forall₂ Completes ws ws' := by
  induction h with
  | nil => exact .nil
  | given hid _ ih => exact .cons ⟨rfl, hid, fun _ => rfl⟩ ih
  | derived hid hsearch _ ih =>
    obtain ⟨n, -, -, -, -, rfl⟩ := firstFree?_eq_some_iff.1 hsearch
    exact .cons ⟨rfl, naming.wire_ne_empty _ _ n, fun hne => absurd hid hne⟩ ih

/-- An identity that was searched for was not taken. -/
theorem Named.free (h : Named naming taken ws ws') :
    ∀ p ∈ ws.zip ws', p.1.id = "" → taken.contains p.2.id = false := by
  induction h with
  | nil => exact fun _ hp => absurd hp List.not_mem_nil
  | given hid _ ih => exact List.forall_mem_cons.2 ⟨fun he => absurd he hid, ih⟩
  | derived hid hsearch _ ih =>
    refine List.forall_mem_cons.2 ⟨fun _ => contains_of_firstFree? hsearch, fun p hp he => ?_⟩
    exact Bool.eq_false_iff.2 fun hin => Bool.eq_false_iff.1 (ih p hp he) ((Names.contains_add ..).2 (.inr hin))

/-- Nor is it that of any other wire, if all that were given are taken to begin with. -/
theorem Named.pairwise (h : Named naming taken ws ws') (htaken : ∀ w ∈ ws, w.id ≠ "" → taken.contains w.id = true) :
    (ws.zip ws').Pairwise fun p q => p.1.id = "" ∨ q.1.id = "" → p.2.id ≠ q.2.id := by
  induction h with
  | nil => exact .nil
  | @given taken w ws ws' hid h ih =>
    obtain ⟨hw, hrest⟩ := List.forall_mem_cons.1 htaken
    refine List.pairwise_cons.2 ⟨fun q hq he hsame => ?_, ih hrest⟩
    have hfree := h.free q hq (he.resolve_left hid)
    rw [← hsame, hw hid] at hfree
    cases hfree
  | @derived taken w ws ws' id hid hsearch h ih =>
    obtain ⟨-, hrest⟩ := List.forall_mem_cons.1 htaken
    have hadd : ∀ v ∈ ws, v.id ≠ "" → (taken.add id).contains v.id = true := fun v hv he =>
      (Names.contains_add ..).2 (.inr (hrest v hv he))
    refine List.pairwise_cons.2 ⟨fun q hq _ hsame => ?_, ih hadd⟩
    by_cases he : q.1.id = ""
    · have hfree := h.free q hq he
      rw [← hsame, (Names.contains_add ..).2 (.inl rfl)] at hfree
      cases hfree
    · -- whatever identity a later wire was given, it was taken when this one was named
      obtain ⟨-, -, hgiven⟩ := (List.forall₂_iff_zip.1 h.completes).2 hq
      have hfree := contains_of_firstFree? hsearch
      rw [show id = q.1.id from hsame.trans (hgiven he), hrest q.1 (List.of_mem_zip hq).1 he] at hfree
      cases hfree

/-! ## Whole boards -/

/-- A wire without an identity has more candidates than there are identities that may be taken: one of them is outside
of any set of fewer names than the board has wires. -/
def Ample (b : Board) (naming : Naming) : Prop :=
  ∀ w ∈ b.wires, w.id = "" → ∀ taken : Names, taken.size < b.wires.length →
    ∃ i < occurrences, taken.contains (naming.wire w.source w.target i) = false

/-- There are enough if no two of them are alike, unless the wires of the board are more than can be counted. -/
theorem ample_of_faithful (hn : naming.Faithful) (hb : b.wires.length ≤ occurrences) : b.Ample naming := by
  intro w _ _ taken hsize
  obtain ⟨i, hi, hfree⟩ := Names.exists_free hsize fun i _ j _
    (h : naming.wire w.source w.target i = naming.wire w.source w.target j) => hn.wire_inj h
  exact ⟨i, hi.trans_le hb, hfree⟩

theorem size_givenWireIds_le (b : Board) :
    b.givenWireIds.size + b.wires.countP (fun w => w.id = "") ≤ b.wires.length := by
  have hle : b.givenWireIds.size ≤ ((b.wires.map (·.id)).filter (· ≠ "")).length :=
    Names.size_le_of_subset fun x hx => (Names.contains_ofNames _ x).1 (Dict.mem_keys.1 hx)
  have hsplit := List.length_eq_countP_add_countP (fun w : Wire => w.id = "") (l := b.wires)
  rw [← List.countP_eq_length_filter, List.countP_map] at hle
  simp only [Function.comp_def, ne_eq, decide_not, decide_eq_true_eq] at hle hsplit ⊢
  omega

/-- What bringing a board into normal form makes of it. -/
structure Normalizes (b b' : Board) : Prop where
  rest : b' = { b with wires := b'.wires, occupants := b'.occupants }
  wires : List.Forall₂ Completes b.wires b'.wires
  /-- An identity that a wire was not given is that of no other wire. -/
  apart : ∀ (i j : Nat) (w w' v' : Wire), b.wires[i]? = some w → w.id = "" → b'.wires[i]? = some w' →
    b'.wires[j]? = some v' → w'.id = v'.id → i = j
  occupants : ∀ slot list, b'.occupants.get? slot = some list ↔ b.occupants.get? slot = some list ∧ list ≠ []

theorem Named.normalizes (h : Named naming b.givenWireIds b.wires (b.normalize naming).wires) :
    b.Normalizes (b.normalize naming) where
  rest := rfl
  wires := h.completes
  apart i j w w' v' hw hid hw' hv' hsame := by
    have hpairs := h.pairwise fun v hv he => (Names.contains_ofNames ..).2
      (List.mem_filter.2 ⟨List.mem_map_of_mem hv, decide_eq_true he⟩)
    obtain ⟨hj, -⟩ := List.getElem?_eq_some_iff.1 hv'
    have hv := List.getElem?_eq_getElem (h.completes.length_eq ▸ hj)
    obtain ⟨hi, hpi⟩ := List.getElem?_eq_some_iff.1 (List.getElem?_zip_eq_some (z := (w, w')).2 ⟨hw, hw'⟩)
    obtain ⟨hj, hpj⟩ := List.getElem?_eq_some_iff.1 (List.getElem?_zip_eq_some (z := (_, v')).2 ⟨hv, hv'⟩)
    rw [List.pairwise_iff_getElem] at hpairs
    rcases Nat.lt_trichotomy i j with hlt | rfl | hlt
    · have hne := hpairs i j hi hj hlt
      rw [hpi, hpj] at hne
      exact absurd hsame (hne (.inl hid))
    · rfl
    · have hne := hpairs j i hj hi hlt
      rw [hpi, hpj] at hne
      exact absurd hsame.symm (hne (.inr hid))
  occupants slot list := by
    simp [normalize, Dict.get?_filter, Option.filter_eq_some_iff]

/-- Bringing a board into normal form comes to an end, if the wires without an identity have candidates enough. Whatever
identities were given, and whichever candidates are alike, it then fills in the missing ones with new ones and does
nothing else but strike empty lists of occupants, and there is nothing left to do for a second time. -/
theorem normalize_completes (h : b.Ample naming) :
    Named naming b.givenWireIds b.wires (b.normalize naming).wires ∧ b.Normalizes (b.normalize naming) ∧
      (b.normalize naming).normalize naming = b.normalize naming := by
  have hnamed : Named naming b.givenWireIds b.wires (b.normalize naming).wires :=
    named_nameWires h b.size_givenWireIds_le
  exact ⟨hnamed, hnamed.normalizes, normalize_normalize naming b⟩

/-- A wire without an identity. -/
def twin : Wire := { source := .ofGadget "g" "out", target := .ofSlot "s" "in" }

/-- Two wires without an identity between the same ends, and one that was given the first of their candidates. -/
def twins : Board :=
  { id := "b", wires := [twin, twin, { twin with id := Naming.spelled.wire twin.source twin.target 0 }] }

/-- The first twin has to do with its second candidate, and the second one with its third. -/
theorem normalize_completes_twins : ∃ w v x, (twins.normalize .spelled).wires = [w, v, x] ∧
    w.id ≠ v.id ∧ w.id ≠ x.id ∧ v.id ≠ x.id := by
  obtain ⟨-, hnormal, -⟩ := normalize_completes (ample_of_faithful (b := twins) Naming.faithful_spelled (by decide))
  obtain ⟨w, v, x, hwires⟩ := List.length_eq_three.1 hnormal.wires.length_eq.symm
  have hapart (i j : Nat) (y y' : Wire) (hi : twins.wires[i]? = some twin) (hy : [w, v, x][i]? = some y)
      (hy' : [w, v, x][j]? = some y') (hij : i ≠ j) : y.id ≠ y'.id := fun hsame =>
    hij (hnormal.apart i j twin y y' hi rfl (hwires ▸ hy) (hwires ▸ hy') hsame)
  exact ⟨w, v, x, hwires, hapart 0 1 w v rfl rfl rfl (by decide), hapart 0 2 w x rfl rfl rfl (by decide),
    hapart 1 2 v x rfl rfl rfl (by decide)⟩

end Board

end Patchbay
