import Patchbay.Dict
import Mathlib.Data.List.Basic
import Mathlib.Data.List.Nodup

/-! Looking things up in finite maps: what each operation does to the value under a key. -/

namespace Patchbay

universe u v

namespace Entries

variable {α : Type u} {β : Type v}

theorem Ordered.nodup {l : List (String × α)} (h : Ordered l) : (l.map (·.1)).Nodup := by
  refine List.Pairwise.imp ?_ h
  intro a b hlt heq
  exact String.lt_irrefl b (heq ▸ hlt)

theorem find?_eq_some_iff {l : List (String × α)} (h : Ordered l) {k : String} {v : α} :
    find? k l = some v ↔ (k, v) ∈ l := by
  induction l with
  | nil => simp [find?]
  | cons e rest ih =>
    obtain ⟨k', v'⟩ := e
    obtain ⟨hlt, hrest⟩ := List.pairwise_cons.1 h
    by_cases hk : k = k'
    · subst hk
      have hv : (k, v) ∉ rest := fun hm =>
        String.lt_irrefl k (hlt k (List.mem_map.2 ⟨(k, v), hm, rfl⟩))
      simp [find?, hv, eq_comm]
    · simp [find?, hk, ih hrest]

theorem find?_filter {p : String → α → Bool} {l : List (String × α)} (h : Ordered l) (k : String) :
    find? k (l.filter fun e => p e.1 e.2) = (find? k l).filter (p k) := by
  ext v
  rw [find?_eq_some_iff h.filter, Option.filter_eq_some_iff, find?_eq_some_iff h, List.mem_filter]

theorem mem_keys_ofList {l : List (String × α)} {x : String} :
    x ∈ (ofList l).map (·.1) ↔ x ∈ l.map (·.1) := by
  induction l with
  | nil => rfl
  | cons e rest ih =>
    rw [ofList, List.foldr_cons, mem_keys_merge, List.map_cons, List.mem_cons]
    simpa [ofList] using or_congr_right ih

theorem mem_of_mem_merge {l r : List (String × α)} {e : String × α} (h : e ∈ merge l r) : e ∈ l ∨ e ∈ r := by
  induction l generalizing r with
  | nil => exact .inr h
  | cons e' l ih =>
    rw [merge] at h
    induction r with
    | nil =>
      rcases List.mem_cons.1 h with rfl | h
      · exact .inl List.mem_cons_self
      · exact (ih h).imp_left (List.mem_cons_of_mem e')
    | cons e'' r ihr =>
      simp only [mergeEntry] at h
      split at h
      · rcases List.mem_cons.1 h with rfl | h
        · exact .inl List.mem_cons_self
        · exact (ih h).imp_left (List.mem_cons_of_mem e')
      · split at h
        · rcases List.mem_cons.1 h with rfl | h
          · exact .inr List.mem_cons_self
          · exact (ih h).imp (List.mem_cons_of_mem e') (List.mem_cons_of_mem e'')
        · rcases List.mem_cons.1 h with rfl | h
          · exact .inr List.mem_cons_self
          · exact (ihr h).imp_right (List.mem_cons_of_mem e'')

theorem mem_of_mem_ofList {l : List (String × α)} {e : String × α} (h : e ∈ ofList l) : e ∈ l := by
  induction l with
  | nil => exact h
  | cons e' rest ih =>
    rcases mem_of_mem_merge h with h | h
    · exact List.mem_cons.2 (.inl (List.mem_singleton.1 h))
    · exact List.mem_cons_of_mem e' (ih h)

theorem find?_append (k : String) (l m : List (String × α)) : find? k (l ++ m) = (find? k l).or (find? k m) := by
  induction l with
  | nil => rfl
  | cons e l ih =>
    simp only [List.cons_append, find?, ih]
    split <;> rfl

theorem mem_of_find? {k : String} {v : α} {l : List (String × α)} (h : find? k l = some v) : (k, v) ∈ l := by
  induction l with
  | nil => cases h
  | cons e l ih =>
    rw [find?] at h
    split at h
    · next hk =>
      cases h
      exact hk ▸ List.mem_cons_self
    · exact List.mem_cons_of_mem e (ih h)

theorem find?_eq_none_of_lt {k : String} {l : List (String × α)} (h : ∀ x ∈ l.map (·.1), k < x) :
    find? k l = none := by
  rw [← Option.not_isSome_iff_eq_none]
  exact fun hs => String.lt_irrefl k (h k (mem_keys_of_find? hs))

/-- An entry that is merged in from the left stays if there is none under its key. -/
theorem find?_merge_singleton (k : String) (e : String × α) {m : List (String × α)} (hm : Ordered m) :
    find? k (merge [e] m) = (find? k m).or (find? k [e]) := by
  show find? k (mergeEntry e (merge []) m) = _
  induction m with
  | nil => rfl
  | cons e' m ih =>
    obtain ⟨hlt, hm'⟩ := List.pairwise_cons.1 hm
    rw [mergeEntry]
    split
    · next h =>
      have hnone : find? e.1 (e' :: m) = none := find?_eq_none_of_lt <| List.forall_mem_cons.2
        ⟨h, fun x hx => String.lt_trans h (hlt x hx)⟩
      show find? k (e :: e' :: m) = _
      by_cases hk : k = e.1
      · rw [hk, hnone]
        simp [find?]
      · simp [find?, hk]
    · split
      · next heq =>
        show find? k (e' :: m) = _
        by_cases hk : k = e'.1
        · simp [find?, hk]
        · simp [find?, hk, heq]
      · by_cases hk : k = e'.1
        · simp [find?, hk]
        · simpa [find?, hk] using ih hm'

/-- Of several entries under one key the last one is found. -/
theorem find?_ofList (k : String) (l : List (String × α)) : find? k (ofList l) = find? k l.reverse := by
  induction l with
  | nil => rfl
  | cons e l ih =>
    show find? k (merge [e] (ofList l)) = _
    rw [find?_merge_singleton k e (ordered_ofList l), ih, List.reverse_cons, find?_append]

@[simp] theorem find?_ofList_append (k : String) (l m : List (String × α)) :
    find? k (ofList (l ++ m)) = (find? k (ofList m)).or (find? k (ofList l)) := by
  simp only [find?_ofList, List.reverse_append, find?_append]

theorem ofList_of_ordered {l : List (String × α)} (h : Ordered l) : ofList l = l := by
  induction l with
  | nil => rfl
  | cons e rest ih =>
    obtain ⟨hlt, hrest⟩ := List.pairwise_cons.1 h
    show merge [e] (ofList rest) = e :: rest
    rw [ih hrest]
    cases rest with
    | nil => rfl
    | cons e' rest => exact if_pos (hlt e'.1 List.mem_cons_self)

theorem find?_mapValues (f : String → α → β) (l : List (String × α)) (k : String) :
    find? k (l.map fun e => (e.1, f e.1 e.2)) = (find? k l).map (f k) := by
  induction l with
  | nil => rfl
  | cons e rest ih =>
    by_cases hk : k = e.1
    · simp [find?, hk]
    · simp [find?, hk, ih]

end Entries

namespace Dict

variable {α : Type u} {β : Type v}

theorem get?_eq_some_iff {d : Dict α} {k : String} {v : α} : d.get? k = some v ↔ (k, v) ∈ d.entries :=
  Entries.find?_eq_some_iff d.ordered

theorem contains_iff {d : Dict α} {k : String} : d.contains k = true ↔ ∃ v, d.get? k = some v := by
  rw [contains, Option.isSome_iff_exists]

theorem contains_eq_false_iff {d : Dict α} {k : String} : d.contains k = false ↔ d.get? k = none := by
  rw [contains, Option.isSome_eq_false_iff, Option.isNone_iff_eq_none]

theorem mem_keys {d : Dict α} {k : String} : k ∈ d.keys ↔ d.contains k = true := by
  rw [contains_iff, keys, List.mem_map]
  constructor
  · rintro ⟨⟨k', v⟩, hm, rfl⟩
    exact ⟨v, get?_eq_some_iff.2 hm⟩
  · rintro ⟨v, hv⟩
    exact ⟨(k, v), get?_eq_some_iff.1 hv, rfl⟩

theorem mem_values {d : Dict α} {v : α} : v ∈ d.values ↔ ∃ k, d.get? k = some v := by
  rw [values, List.mem_map]
  constructor
  · rintro ⟨⟨k, v'⟩, hm, rfl⟩
    exact ⟨k, get?_eq_some_iff.2 hm⟩
  · rintro ⟨k, hk⟩
    exact ⟨(k, v), get?_eq_some_iff.1 hk, rfl⟩

theorem nodup_keys (d : Dict α) : d.keys.Nodup := d.ordered.nodup

/-- Values may tell the keys that they are kept under. -/
theorem map_values {d : Dict α} {key : α → String} (h : ∀ k v, d.get? k = some v → key v = k) :
    d.values.map key = d.keys := by
  rw [values, keys, List.map_map]
  exact List.map_congr_left fun e he => h e.1 e.2 (get?_eq_some_iff.2 he)

theorem nodup_values {d : Dict α} {key : α → String} (h : ∀ k v, d.get? k = some v → key v = k) : d.values.Nodup :=
  .of_map key (map_values h ▸ d.nodup_keys)

theorem get?_insert (d : Dict α) (k x : String) (v : α) :
    (d.insert k v).get? x = if x = k then some v else d.get? x := by
  split
  · next h => rw [h, get?_insert_self]
  · next h => exact get?_insert_of_ne d h v

theorem get?_erase (d : Dict α) (k x : String) :
    (d.erase k).get? x = if x = k then none else d.get? x := by
  split
  · next h => rw [h, get?_erase_self]
  · next h => exact get?_erase_of_ne d h

theorem get?_insert_eq_some {d : Dict α} {k x : String} {v w : α} :
    (d.insert k v).get? x = some w ↔ (x = k ∧ v = w) ∨ (x ≠ k ∧ d.get? x = some w) := by
  rw [get?_insert]
  split <;> simp [*]

theorem get?_erase_eq_some {d : Dict α} {k x : String} {v : α} :
    (d.erase k).get? x = some v ↔ x ≠ k ∧ d.get? x = some v := by
  rw [get?_erase]
  split <;> simp [*]

theorem get?_foldl_erase (l : List String) (d : Dict α) (k : String) :
    (l.foldl erase d).get? k = if k ∈ l then none else d.get? k := by
  induction l generalizing d with
  | nil => rfl
  | cons x rest ih =>
    rw [List.foldl_cons, ih, get?_erase]
    by_cases hk : k = x <;> by_cases hr : k ∈ rest <;> simp [hk, hr]

theorem contains_insert (d : Dict α) (k x : String) (v : α) :
    (d.insert k v).contains x = true ↔ x = k ∨ d.contains x = true := by
  rw [contains, get?_insert]
  split <;> simp [*, contains]

theorem length_keys_insert {d : Dict α} {k : String} (v : α) (h : d.contains k = false) :
    (d.insert k v).keys.length = d.keys.length + 1 := by
  have hk : k ∉ d.keys := by
    rw [mem_keys, h]
    exact Bool.false_ne_true
  have hperm : (d.insert k v).keys.Perm (k :: d.keys) := by
    refine (List.perm_ext_iff_of_nodup (nodup_keys _) (List.nodup_cons.2 ⟨hk, d.nodup_keys⟩)).2 fun x => ?_
    rw [mem_keys_insert, List.mem_cons]
  exact hperm.length_eq

theorem contains_erase (d : Dict α) (k x : String) :
    (d.erase k).contains x = true ↔ x ≠ k ∧ d.contains x = true := by
  rw [contains, get?_erase]
  split <;> simp [*, contains]

theorem get?_filter (d : Dict α) (p : String → α → Bool) (k : String) :
    (d.filter p).get? k = (d.get? k).filter (p k) :=
  Entries.find?_filter d.ordered k

theorem contains_filter {d : Dict α} {p : String → Bool} {k : String} :
    (d.filter fun k _ => p k).contains k = true ↔ d.contains k = true ∧ p k = true := by
  rw [contains, contains, get?_filter]
  cases d.get? k <;> simp

theorem get?_map (d : Dict α) (f : String → α → β) (k : String) :
    (d.map f).get? k = (d.get? k).map (f k) :=
  Entries.find?_mapValues f d.entries k

theorem get?_modify (d : Dict α) (k x : String) (f : α → α) :
    (d.modify k f).get? x = if x = k then (d.get? x).map f else d.get? x := by
  unfold modify
  split
  · next v hv =>
    rw [get?_insert]
    split
    · next h => rw [h, hv, Option.map_some]
    · rfl
  · next hv =>
    split
    · next h => rw [h, hv, Option.map_none]
    · rfl

/-- Maps that agree on every key are equal. -/
theorem ext_get? {d e : Dict α} (h : ∀ k, d.get? k = e.get? k) : d = e := by
  have hmem : ∀ x, x ∈ d.entries ↔ x ∈ e.entries := fun ⟨k, v⟩ => by
    rw [← get?_eq_some_iff, ← get?_eq_some_iff, h k]
  have hperm : d.entries.Perm e.entries :=
    (List.perm_ext_iff_of_nodup (List.Nodup.of_map _ d.nodup_keys)
      (List.Nodup.of_map _ e.nodup_keys)).2 hmem
  have hd : d.entries.Pairwise fun a b => a.1 < b.1 := List.pairwise_map.1 d.ordered
  have he : e.entries.Pairwise fun a b => a.1 < b.1 := List.pairwise_map.1 e.ordered
  exact ext (hperm.eq_of_pairwise
    (fun a b _ _ hab hba => absurd (String.lt_trans hab hba) (String.lt_irrefl _)) hd he)

/-- The keys of a map are told by what it contains, for they stand in order. -/
theorem keys_eq_iff {d : Dict α} {e : Dict β} : d.keys = e.keys ↔ ∀ k, d.contains k = e.contains k := by
  constructor
  · intro h k
    rw [Bool.eq_iff_iff, ← mem_keys, ← mem_keys, h]
  · intro h
    have hperm : d.keys.Perm e.keys := (List.perm_ext_iff_of_nodup d.nodup_keys e.nodup_keys).2 fun k => by
      rw [mem_keys, mem_keys, h k]
    exact hperm.eq_of_pairwise (fun a b _ _ hab hba => absurd (String.lt_trans hab hba) (String.lt_irrefl _))
      d.ordered e.ordered

/-- Maps that have the same keys, and under each of them the same, are equal. -/
theorem ext_keys {d e : Dict α} (hkeys : d.keys = e.keys)
    (h : ∀ k v w, d.get? k = some v → e.get? k = some w → v = w) : d = e := by
  refine ext_get? fun k => ?_
  have hsame := keys_eq_iff.1 hkeys k
  cases hv : d.get? k with
  | none =>
    rw [contains_eq_false_iff.2 hv] at hsame
    exact (contains_eq_false_iff.1 hsame.symm).symm
  | some v =>
    rw [contains_of_get? hv] at hsame
    obtain ⟨w, hw⟩ := contains_iff.1 hsame.symm
    rw [hw, h k v w hv hw]

theorem contains_ofList {l : List (String × α)} {k : String} :
    (ofList l).contains k = true ↔ k ∈ l.map (·.1) := by
  rw [← mem_keys]
  exact Entries.mem_keys_ofList

theorem contains_union {d e : Dict α} {k : String} :
    (d.union e).contains k = true ↔ d.contains k = true ∨ e.contains k = true := by
  rw [← mem_keys, ← mem_keys, ← mem_keys]
  exact Entries.mem_keys_merge

theorem erase_insert (d : Dict α) (k x : String) (v : α) :
    (d.insert k v).erase x = if k = x then d.erase x else (d.erase x).insert k v := by
  refine ext_get? fun y => ?_
  split <;> simp only [get?_erase, get?_insert] <;> grind

theorem keys_erase (d : Dict α) (k : String) : (d.erase k).keys = d.keys.filter (· ≠ k) := by
  rw [keys, keys, List.filter_map]
  rfl

theorem erase_eq_self {d : Dict α} {k : String} (h : d.get? k = none) : d.erase k = d := by
  apply ext_get?
  intro x
  rw [get?_erase]
  split
  · next hx => rw [hx, h]
  · rfl

/-- Where elements are put in one after the other, a value was there before or is one of them. -/
theorem mem_of_get?_foldl_insert {key : α → String} {l : List α} {d : Dict α} {k : String} {v : α}
    (h : (l.foldl (fun d x => d.insert (key x) x) d).get? k = some v) :
    (v ∈ l ∧ key v = k) ∨ d.get? k = some v := by
  induction l generalizing d with
  | nil => exact .inr h
  | cons x rest ih =>
    rcases ih h with ⟨hv, hk⟩ | hd
    · exact .inl ⟨List.mem_cons_of_mem x hv, hk⟩
    · rw [get?_insert] at hd
      split at hd
      · next hk =>
        cases hd
        exact .inl ⟨List.mem_cons_self, hk.symm⟩
      · exact .inr hd

theorem contains_foldl_insert (key : α → String) (l : List α) (d : Dict α) (k : String) :
    (l.foldl (fun d x => d.insert (key x) x) d).contains k = true ↔
      k ∈ l.map key ∨ d.contains k = true := by
  induction l generalizing d with
  | nil => simp
  | cons x rest ih =>
    rw [List.foldl_cons, ih, contains_insert, List.map_cons, List.mem_cons, or_left_comm, or_assoc]

theorem eq_empty {d : Dict α} (h : ∀ k, d.get? k = none) : d = ∅ := ext_get? h

theorem isEmpty_iff {d : Dict α} : d.isEmpty = true ↔ d = ∅ := by
  rw [isEmpty, List.isEmpty_iff]
  exact ⟨fun h => ext h, fun h => by rw [h]; rfl⟩

end Dict

namespace Names

theorem ext_contains {s t : Names} (h : ∀ x, s.contains x = t.contains x) : s = t :=
  Dict.ext_keys (Dict.keys_eq_iff.2 h) fun _ _ _ _ _ => rfl

theorem contains_add (s : Names) (n x : String) : (s.add n).contains x = true ↔ x = n ∨ s.contains x = true :=
  Dict.contains_insert s n x ()

theorem contains_foldl_add (l : List String) (s : Names) (x : String) :
    (l.foldl add s).contains x = true ↔ x ∈ l ∨ s.contains x = true := by
  induction l generalizing s with
  | nil => simp
  | cons n rest ih => rw [List.foldl_cons, ih, contains_add, List.mem_cons, or_left_comm, or_assoc]

theorem contains_join (s t : Names) (x : String) :
    (s.join t).contains x = true ↔ s.contains x = true ∨ t.contains x = true := by
  rw [join, contains_foldl_add, Dict.mem_keys, or_comm]

theorem contains_ofNames (l : List String) (x : String) : (ofNames l).contains x = true ↔ x ∈ l := by
  rw [ofNames, Dict.contains_ofList, List.map_map, Function.comp_def, List.map_id']

end Names

end Patchbay
