/-!
Finite maps from names, kept as association lists in strictly ascending key order, so that equal maps
are equal values and every traversal meets the keys in order.
-/

namespace Patchbay

universe u v

/-! ## Association lists in key order -/

namespace Entries

variable {α : Type u} {β : Type v}

/-- The entries stand in strictly ascending key order. -/
def Ordered (l : List (String × α)) : Prop :=
  (l.map (·.1)).Pairwise (· < ·)

def insert (k : String) (v : α) : List (String × α) → List (String × α)
  | [] => [(k, v)]
  | (k', v') :: rest =>
    if k < k' then (k, v) :: (k', v') :: rest
    else if k = k' then (k, v) :: rest
    else (k', v') :: insert k v rest

def erase (k : String) (l : List (String × α)) : List (String × α) :=
  l.filter fun e => e.1 ≠ k

def find? (k : String) : List (String × α) → Option α
  | [] => none
  | (k', v) :: rest => if k = k' then some v else find? k rest

/-- Merges an entry and, by way of `rest`, those that follow it into a list. -/
def mergeEntry (e : String × α) (rest : List (String × α) → List (String × α)) :
    List (String × α) → List (String × α)
  | [] => e :: rest []
  | e' :: r =>
    if e.1 < e'.1 then e :: rest (e' :: r)
    else if e.1 = e'.1 then e' :: rest r
    else e' :: mergeEntry e rest r

/-- The entries of two lists in key order; where both have a key, the second list's entry stays. -/
def merge : List (String × α) → List (String × α) → List (String × α)
  | [], r => r
  | e :: l, r => mergeEntry e (merge l) r

/-- The entries of a list in key order; of two under one key the later one stays. -/
def ofList (l : List (String × α)) : List (String × α) :=
  l.foldr (fun e acc => merge [e] acc) []

theorem ordered_nil : Ordered ([] : List (String × α)) := List.Pairwise.nil

theorem mem_keys_insert {k x : String} {v : α} {l : List (String × α)} :
    x ∈ (insert k v l).map (·.1) ↔ x = k ∨ x ∈ l.map (·.1) := by
  induction l with
  | nil => simp [insert]
  | cons e rest ih =>
    obtain ⟨k', v'⟩ := e
    simp only [insert]
    split
    · simp
    · split
      · rename_i h
        subst h
        simp
      · simp only [List.map_cons, List.mem_cons, ih]
        exact or_left_comm

theorem Ordered.insert {k : String} {v : α} {l : List (String × α)} (h : Ordered l) :
    Ordered (Entries.insert k v l) := by
  induction l with
  | nil => simp [Entries.insert, Ordered]
  | cons e rest ih =>
    obtain ⟨k', v'⟩ := e
    obtain ⟨hlt, hrest⟩ := List.pairwise_cons.1 h
    simp only [Entries.insert]
    split
    · rename_i hk
      refine List.pairwise_cons.2 ⟨fun x hx => ?_, h⟩
      rcases List.mem_cons.1 hx with rfl | hx
      · exact hk
      · exact String.lt_trans hk (hlt x hx)
    · split
      · rename_i hk
        subst hk
        exact h
      · rename_i hk hne
        refine List.pairwise_cons.2 ⟨fun x hx => ?_, ih hrest⟩
        rcases mem_keys_insert.1 hx with rfl | hx
        · rcases Std.lt_trichotomy k' x with h' | h' | h'
          · exact h'
          · exact absurd h'.symm hne
          · exact absurd h' hk
        · exact hlt x hx

theorem Ordered.filter {p : String × α → Bool} {l : List (String × α)} (h : Ordered l) :
    Ordered (l.filter p) :=
  List.Pairwise.sublist (List.Sublist.map _ List.filter_sublist) h

theorem Ordered.erase {k : String} {l : List (String × α)} (h : Ordered l) :
    Ordered (Entries.erase k l) :=
  h.filter

theorem Ordered.mapValues {f : String → α → β} {l : List (String × α)} (h : Ordered l) :
    Ordered (l.map fun e => (e.1, f e.1 e.2)) := by
  simpa only [Ordered, List.map_map, Function.comp_def] using h

theorem mem_keys_merge {x : String} {l r : List (String × α)} :
    x ∈ (merge l r).map (·.1) ↔ x ∈ l.map (·.1) ∨ x ∈ r.map (·.1) := by
  induction l generalizing r with
  | nil => simp [merge]
  | cons e l ih =>
    rw [merge]
    induction r with
    | nil => simp [mergeEntry, ih]
    | cons e' r ihr =>
      simp only [mergeEntry]
      split
      · simp only [List.map_cons, List.mem_cons, ih, or_assoc]
      · split
        · rename_i h
          simp only [List.map_cons, List.mem_cons, ih, h]
          grind
        · simp only [List.map_cons, List.mem_cons, ihr]
          grind

theorem Ordered.merge {l r : List (String × α)} (hl : Ordered l) (hr : Ordered r) :
    Ordered (Entries.merge l r) := by
  induction l generalizing r with
  | nil => exact hr
  | cons e l ih =>
    obtain ⟨hel, hl'⟩ := List.pairwise_cons.1 hl
    rw [Entries.merge]
    induction r with
    | nil =>
      refine List.pairwise_cons.2 ⟨fun x hx => ?_, ih hl' hr⟩
      exact (mem_keys_merge.1 hx).elim (hel x) nofun
    | cons e' r ihr =>
      obtain ⟨her, hr'⟩ := List.pairwise_cons.1 hr
      simp only [mergeEntry]
      split
      · rename_i hlt
        refine List.pairwise_cons.2 ⟨fun x hx => ?_, ih hl' hr⟩
        rcases mem_keys_merge.1 hx with hx | hx
        · exact hel x hx
        · rcases List.mem_cons.1 hx with rfl | hx
          · exact hlt
          · exact String.lt_trans hlt (her x hx)
      · split
        · rename_i heq
          refine List.pairwise_cons.2 ⟨fun x hx => ?_, ih hl' hr'⟩
          rcases mem_keys_merge.1 hx with hx | hx
          · simpa [← heq] using hel x hx
          · exact her x hx
        · rename_i hlt hne
          have hgt : e'.1 < e.1 := by
            rcases Std.lt_trichotomy e.1 e'.1 with h | h | h
            · exact absurd h hlt
            · exact absurd h hne
            · exact h
          refine List.pairwise_cons.2 ⟨fun x hx => ?_, ihr hr'⟩
          have hx' : x ∈ (Entries.merge (e :: l) r).map (·.1) := hx
          rcases mem_keys_merge.1 hx' with hx | hx
          · rcases List.mem_cons.1 hx with rfl | hx
            · exact hgt
            · exact String.lt_trans hgt (hel x hx)
          · exact her x hx

theorem ordered_ofList (l : List (String × α)) : Ordered (ofList l) := by
  induction l with
  | nil => exact ordered_nil
  | cons e rest ih => exact Ordered.merge (by simp [Ordered]) ih

theorem find?_insert_self (k : String) (v : α) (l : List (String × α)) :
    find? k (insert k v l) = some v := by
  induction l with
  | nil => simp [insert, find?]
  | cons e rest ih =>
    obtain ⟨k', v'⟩ := e
    simp only [insert]
    split
    · simp [find?]
    · split
      · simp [find?]
      · rename_i hne
        simp [find?, hne, ih]

theorem find?_insert_of_ne {k x : String} (hx : x ≠ k) (v : α) (l : List (String × α)) :
    find? x (insert k v l) = find? x l := by
  induction l with
  | nil => simp [insert, find?, hx]
  | cons e rest ih =>
    obtain ⟨k', v'⟩ := e
    simp only [insert]
    split
    · simp [find?, hx]
    · split
      · rename_i h
        subst h
        simp [find?, hx]
      · simp only [find?, ih]

theorem find?_erase_self (k : String) (l : List (String × α)) : find? k (erase k l) = none := by
  induction l with
  | nil => rfl
  | cons e rest ih =>
    obtain ⟨k', v'⟩ := e
    by_cases h : k' = k
    · simpa [erase, h] using ih
    · have h' : k ≠ k' := fun h' => h h'.symm
      simpa [erase, h, h', find?] using ih

theorem find?_erase_of_ne {k x : String} (hx : x ≠ k) (l : List (String × α)) :
    find? x (erase k l) = find? x l := by
  induction l with
  | nil => rfl
  | cons e rest ih =>
    obtain ⟨k', v'⟩ := e
    by_cases h : k' = k
    · simpa [erase, h, find?, hx] using ih
    · simp only [erase, ne_eq, decide_not, List.filter_cons, h, decide_false, Bool.not_false,
        if_true, find?] at ih ⊢
      rw [ih]

theorem mem_keys_of_find? {k : String} {l : List (String × α)} (h : (find? k l).isSome) :
    k ∈ l.map (·.1) := by
  induction l with
  | nil => simp [find?] at h
  | cons e rest ih =>
    obtain ⟨k', v'⟩ := e
    by_cases hk : k = k'
    · simp [hk]
    · simp only [find?, hk, if_false] at h
      exact List.mem_cons_of_mem _ (ih h)

/-- Putting a value under a key that is there changes no key. -/
theorem keys_insert_of_find? {k : String} {v : α} {l : List (String × α)} (ho : Ordered l)
    (h : (find? k l).isSome) : (insert k v l).map (·.1) = l.map (·.1) := by
  induction l with
  | nil => simp [find?] at h
  | cons e rest ih =>
    obtain ⟨k', v'⟩ := e
    obtain ⟨hlt, hrest⟩ := List.pairwise_cons.1 ho
    by_cases hk : k = k'
    · rw [← hk, insert, if_neg (String.lt_irrefl k), if_pos rfl]
      rfl
    · simp only [find?, hk, if_false] at h
      have hk' : ¬k < k' := fun hlt' =>
        String.lt_irrefl k (String.lt_trans hlt' (hlt k (mem_keys_of_find? h)))
      simp [insert, hk, hk', ih hrest h]

end Entries

/-! ## Maps -/

/-- A finite map from names; its entries stand in strictly ascending key order. -/
structure Dict (α : Type u) where
  entries : List (String × α)
  ordered : Entries.Ordered entries

namespace Dict

variable {α : Type u} {β : Type v}

@[ext] theorem ext {d e : Dict α} (h : d.entries = e.entries) : d = e := by
  cases d; cases e; cases h; rfl

instance [DecidableEq α] : DecidableEq (Dict α) := fun d e =>
  if h : d.entries = e.entries then isTrue (ext h) else isFalse fun h' => h (h' ▸ rfl)

instance [BEq α] : BEq (Dict α) := ⟨fun d e => d.entries == e.entries⟩

instance : EmptyCollection (Dict α) := ⟨⟨[], Entries.ordered_nil⟩⟩

instance : Inhabited (Dict α) := ⟨∅⟩

/-- The map of a list of entries; of two under one key the later one stays. -/
def ofList (l : List (String × α)) : Dict α :=
  ⟨Entries.ofList l, Entries.ordered_ofList l⟩

def singleton (k : String) (v : α) : Dict α :=
  ⟨[(k, v)], by simp [Entries.Ordered]⟩

def insert (d : Dict α) (k : String) (v : α) : Dict α :=
  ⟨Entries.insert k v d.entries, d.ordered.insert⟩

def erase (d : Dict α) (k : String) : Dict α :=
  ⟨Entries.erase k d.entries, d.ordered.erase⟩

def get? (d : Dict α) (k : String) : Option α :=
  Entries.find? k d.entries

def contains (d : Dict α) (k : String) : Bool :=
  (d.get? k).isSome

def getD (d : Dict α) (k : String) (v : α) : α :=
  (d.get? k).getD v

def modify (d : Dict α) (k : String) (f : α → α) : Dict α :=
  match d.get? k with
  | some v => d.insert k (f v)
  | none => d

def keys (d : Dict α) : List String :=
  d.entries.map (·.1)

def values (d : Dict α) : List α :=
  d.entries.map (·.2)

def size (d : Dict α) : Nat :=
  d.entries.length

def isEmpty (d : Dict α) : Bool :=
  d.entries.isEmpty

def filter (d : Dict α) (p : String → α → Bool) : Dict α :=
  ⟨d.entries.filter fun e => p e.1 e.2, d.ordered.filter⟩

def map (f : String → α → β) (d : Dict α) : Dict β :=
  ⟨d.entries.map fun e => (e.1, f e.1 e.2), d.ordered.mapValues⟩

/-- The entries of both maps; where both have a key, the second map's value stays. -/
def union (d e : Dict α) : Dict α :=
  ⟨Entries.merge d.entries e.entries, d.ordered.merge e.ordered⟩

@[simp] theorem get?_empty (k : String) : (∅ : Dict α).get? k = none := rfl

@[simp] theorem get?_insert_self (d : Dict α) (k : String) (v : α) :
    (d.insert k v).get? k = some v :=
  Entries.find?_insert_self k v d.entries

theorem get?_insert_of_ne (d : Dict α) {k x : String} (h : x ≠ k) (v : α) :
    (d.insert k v).get? x = d.get? x :=
  Entries.find?_insert_of_ne h v d.entries

@[simp] theorem get?_erase_self (d : Dict α) (k : String) : (d.erase k).get? k = none :=
  Entries.find?_erase_self k d.entries

theorem get?_erase_of_ne (d : Dict α) {k x : String} (h : x ≠ k) :
    (d.erase k).get? x = d.get? x :=
  Entries.find?_erase_of_ne h d.entries

theorem mem_keys_insert (d : Dict α) {k x : String} {v : α} :
    x ∈ (d.insert k v).keys ↔ x = k ∨ x ∈ d.keys :=
  Entries.mem_keys_insert

theorem contains_of_get? {d : Dict α} {k : String} {v : α} (h : d.get? k = some v) :
    d.contains k := by
  simp [contains, h]

theorem mem_keys_of_get? {d : Dict α} {k : String} {v : α} (h : d.get? k = some v) : k ∈ d.keys :=
  Entries.mem_keys_of_find? (contains_of_get? h)

theorem keys_insert_of_get? {d : Dict α} {k : String} {v : α} (w : α) (h : d.get? k = some v) :
    (d.insert k w).keys = d.keys :=
  Entries.keys_insert_of_find? d.ordered (contains_of_get? h)

end Dict

/-! ## Sets of names -/

/-- A finite set of names, listed in ascending order. -/
abbrev Names := Dict Unit

namespace Names

def ofNames (l : List String) : Names :=
  Dict.ofList (l.map fun n => (n, ()))

def add (s : Names) (n : String) : Names :=
  Dict.insert s n ()

def join (s t : Names) : Names :=
  t.keys.foldl add s

end Names

end Patchbay
