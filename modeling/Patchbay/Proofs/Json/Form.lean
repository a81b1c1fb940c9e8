import Patchbay.Json.Form
import Patchbay.Proofs.Json.Reading

/-! JSON forms that lose nothing. What is written is read back as it was; what was read can be written and read again,
at no greater depth than the text that it came from or than the parts that are written though they were left out. -/

namespace Patchbay

namespace Json

/-! ## Members of records -/

variable {α : Type} [JsonForm α] {n : Nat} {k l : String} {a d : α} {f members others : List (String × Json)}

@[simp] theorem find?_member (k l : String) (a : α) :
    Entries.find? k (Entries.ofList (member l a)) = if k = l then some (JsonForm.encode a) else none := rfl

@[simp] theorem find?_memberUnless (skip : Bool) (k l : String) (a : α) :
    Entries.find? k (Entries.ofList (memberUnless skip l a)) =
      if k = l then (if skip then none else some (JsonForm.encode a)) else none := by
  cases skip
  · rfl
  · exact (ite_self none).symm

@[simp] theorem find?_memberIfSome (k l : String) (o : Option α) :
    Entries.find? k (Entries.ofList (memberIfSome l o)) = if k = l then o.map JsonForm.encode else none := by
  cases o
  · exact (ite_self none).symm
  · rfl

theorem fields?_mkObj (names : List String) (members : List (String × Json)) :
    fields? names (mkObj members) = some (Entries.ofList members) := rfl

theorem required?_of_find? (hf : Entries.find? k f = some (JsonForm.encode a))
    (h : JsonForm.decode? (JsonForm.encode a) = some a) : required? f k = some a := by
  rw [required?, hf, Option.bind_some, h]

theorem optional?_of_find? (hf : Entries.find? k f = some (JsonForm.encode a))
    (h : JsonForm.decode? (JsonForm.encode a) = some a) : optional? f k d = some a := by
  rw [optional?, hf]
  exact h

/-- A value that is left out is found again if it is the one that the reader takes for it. -/
theorem optional?_of_find?_unless {skip : Bool}
    (hf : Entries.find? k f = if skip then none else some (JsonForm.encode a)) (hd : skip = true → a = d)
    (h : JsonForm.decode? (JsonForm.encode a) = some a) : optional? f k d = some a := by
  cases skip with
  | true => rw [optional?, hf, hd rfl, if_pos rfl]
  | false => exact optional?_of_find? hf h

theorem optional?_of_find?_ifSome {o : Option α} (hf : Entries.find? k f = o.map JsonForm.encode)
    (h : JsonForm.decode? (JsonForm.encode o) = some o) : optional? f k none = some o := by
  rw [optional?, hf]
  cases o with
  | none => rfl
  | some a => exact h

/-- A value that is null is lost: it is written as null, and null is read as no value. -/
theorem optional?_of_find?_json {o : Option Json} (hf : Entries.find? k f = o.map JsonForm.encode) :
    optional? f k none = some (o.filter fun v => !v.isNull) := by
  rw [optional?, hf]
  cases o with
  | none => rfl
  | some v => cases v <;> rfl

theorem filter_isNull_eq_self_iff {o : Option Json} : (o.filter fun v => !v.isNull) = o ↔ o ≠ some .null := by
  cases o with
  | none => simp
  | some v => cases v <;> simp [isNull]

/-- The values of members that can be read where so many containers may be opened yet. -/
def AllReadable (n : Nat) (members : List (String × Json)) : Prop := ∀ e ∈ members, Readable n e.2

theorem AllReadable.append (h : AllReadable n members) (h' : AllReadable n others) :
    AllReadable n (members ++ others) := List.forall_mem_append.2 ⟨h, h'⟩

theorem allReadable_member (h : Readable n (JsonForm.encode a)) : AllReadable n (member k a) :=
  List.forall_mem_singleton.2 h

theorem allReadable_memberUnless {skip : Bool} (h : Readable n (JsonForm.encode a)) :
    AllReadable n (memberUnless skip k a) := by
  cases skip with
  | true => exact List.forall_mem_nil _
  | false => exact allReadable_member h

theorem allReadable_memberIfSome {o : Option α} (h : Readable n (JsonForm.encode o)) :
    AllReadable n (memberIfSome k o) := by
  cases o with
  | none => exact List.forall_mem_nil _
  | some a => exact allReadable_member (a := a) h

theorem readable_mkObj (h : AllReadable n members) : Readable (n + 1) (mkObj members) :=
  .obj (Entries.ordered_ofList members) fun e he => h e (Entries.mem_of_mem_ofList he)

/-- The fields of a record are one container further in than the record. -/
theorem Readable.fields? {names : List String} {j : Json} (h : Readable n j) (hf : fields? names j = some f) :
    ∃ m, n = m + 1 ∧ AllReadable m f := by
  cases h with
  | obj _ h =>
    cases hf
    exact ⟨_, rfl, h⟩
  | arr h =>
    obtain ⟨-, he⟩ := Option.ite_none_right_eq_some.1 hf
    cases he
    exact ⟨_, rfl, fun e he => h e.2 (List.of_mem_zip he).2⟩
  | _ => cases hf

theorem tagged?_mkObj {numbered : Bool} {tag name : String} {names : List String}
    (hfind : Entries.find? tag (Entries.ofList members) = some (JsonForm.encode name)) (hname : name ∈ names) :
    tagged? numbered tag names (mkObj members) = some (name, .obj (Entries.erase tag (Entries.ofList members))) := by
  show ((Entries.find? tag (Entries.ofList members)).bind fun v => (alternative? numbered names v).bind _) = _
  have halt : alternative? numbered names (JsonForm.encode name) = some name := if_pos hname
  rw [hfind, Option.bind_some, halt]
  rfl

/-- What is left of a value that names an alternative can be read where the value can. -/
theorem Readable.tagged? {numbered : Bool} {tag name : String} {names : List String} {j rest : Json}
    (h : Readable n j) (ht : tagged? numbered tag names j = some (name, rest)) : Readable n rest := by
  cases h with
  | obj ho h =>
    obtain ⟨_, -, ht⟩ := Option.bind_eq_some_iff.1 ht
    obtain ⟨_, -, he⟩ := Option.bind_eq_some_iff.1 ht
    cases he
    exact .obj ho.erase fun e he => h e (List.mem_of_mem_filter he)
  | @arr _ items h =>
    cases items with
    | nil => cases ht
    | cons head items =>
      obtain ⟨_, -, he⟩ := Option.bind_eq_some_iff.1 ht
      cases he
      exact .arr fun x hx => h x (List.mem_cons_of_mem head hx)
  | _ => cases ht

end Json

namespace JsonForm

open Json

/-- The values of a type that satisfy `P` are written without loss, and only such values are read. What has been read
can be written where the text of it could stand, if there is room for `depth` containers. -/
structure Lossless (α : Type) [JsonForm α] (depth : Nat) (P : α → Prop) : Prop where
  decode_encode : ∀ {a}, P a → decode? (encode a) = some a
  holds : ∀ {j : Json} {a : α}, decode? j = some a → P a
  readable : ∀ {n : Nat} {j : Json} {a : α}, depth ≤ n → Readable n j → decode? j = some a → Readable n (encode a)

/-! ## Values without parts -/

theorem lossless_json : Lossless Json 0 fun _ => True where
  decode_encode _ := rfl
  holds _ := trivial
  readable _ hj h := by
    cases h
    exact hj

theorem lossless_string : Lossless String 0 fun _ => True where
  decode_encode _ := rfl
  holds _ := trivial
  readable _ _ _ := .str _

theorem natCast_range {n : Nat} (h : n ≤ maxNat64) : (0 : Int) ≤ n ∧ (n : Int) ≤ maxNat64 :=
  ⟨Int.natCast_nonneg n, Int.ofNat_le.2 h⟩

theorem le_of_asNat64? {j : Json} {n : Nat} (h : j.asNat64? = some n) : n ≤ maxNat64 := by
  unfold asNat64? at h
  split at h
  · obtain ⟨hi, he⟩ := Option.ite_none_right_eq_some.1 h
    cases he
    exact Int.toNat_le.2 hi.2
  · cases h

theorem lossless_nat : Lossless Nat 0 (· ≤ maxNat64) where
  decode_encode hn := if_pos (natCast_range hn)
  holds h := le_of_asNat64? h
  readable _ _ h := by
    obtain ⟨hleast, hmost⟩ := natCast_range (le_of_asNat64? h)
    exact .int ⟨Int.le_trans (by decide) hleast, hmost⟩

/-! ## Lists, options and maps -/

section

variable {α : Type} [JsonForm α] {depth : Nat} {P : α → Prop}

theorem Lossless.congr {Q : α → Prop} (h : Lossless α depth P) (hQ : ∀ a, Q a ↔ P a) : Lossless α depth Q where
  decode_encode ha := h.decode_encode ((hQ _).1 ha)
  holds hj := (hQ _).2 (h.holds hj)
  readable := h.readable

theorem mapM_decode?_encode (h : Lossless α depth P) {l : List α} (hl : ∀ a ∈ l, P a) :
    (l.map encode).mapM (decode? (α := α)) = some l := by
  induction l with
  | nil => rfl
  | cons a l ih =>
    obtain ⟨ha, hl⟩ := List.forall_mem_cons.1 hl
    rw [List.map_cons, List.mapM_cons, h.decode_encode ha, ih hl]
    rfl

theorem mem_of_mapM_decode? {js : List Json} {l : List α} (h : js.mapM (decode? (α := α)) = some l) :
    ∀ a ∈ l, ∃ j ∈ js, decode? j = some a := by
  induction js generalizing l with
  | nil =>
    cases h
    exact List.forall_mem_nil _
  | cons j js ih =>
    rw [List.mapM_cons] at h
    obtain ⟨a, ha, h⟩ := Option.bind_eq_some_iff.1 h
    obtain ⟨l, hl, h⟩ := Option.bind_eq_some_iff.1 h
    cases h
    refine List.forall_mem_cons.2 ⟨⟨j, List.mem_cons_self, ha⟩, fun b hb => ?_⟩
    obtain ⟨i, hi, hib⟩ := ih hl b hb
    exact ⟨i, List.mem_cons_of_mem j hi, hib⟩

theorem decode?_list {j : Json} {l : List α} (h : decode? j = some l) :
    ∃ js, j = .arr js ∧ ∀ a ∈ l, ∃ i ∈ js, decode? i = some a := by
  obtain ⟨js, hjs, h⟩ := Option.bind_eq_some_iff.1 h
  cases j with
  | arr items =>
    cases hjs
    exact ⟨js, rfl, mem_of_mapM_decode? h⟩
  | _ => cases hjs

theorem Lossless.list (h : Lossless α depth P) : Lossless (List α) (depth + 1) fun l => ∀ a ∈ l, P a where
  decode_encode hl := mapM_decode?_encode h hl
  holds hj := by
    obtain ⟨js, -, hl⟩ := decode?_list hj
    intro a ha
    obtain ⟨i, -, hi⟩ := hl a ha
    exact h.holds hi
  readable {n j l} hn hj hl := by
    obtain ⟨js, rfl, hmem⟩ := decode?_list hl
    obtain ⟨m, rfl, hjs⟩ : ∃ m, n = m + 1 ∧ ∀ i ∈ js, Readable m i := by
      cases hj with
      | arr h => exact ⟨_, rfl, h⟩
    refine .arr fun x hx => ?_
    obtain ⟨a, ha, rfl⟩ := List.mem_map.1 hx
    obtain ⟨i, hi, hia⟩ := hmem a ha
    exact h.readable (Nat.le_of_succ_le_succ hn) (hjs i hi) hia

theorem decode?_option {j : Json} (hj : j ≠ .null) : decode? (α := Option α) j = (decode? j).map some := by
  cases j with
  | null => exact absurd rfl hj
  | _ => rfl

theorem decode?_eq_of_option {j : Json} {o : Option α} (h : decode? j = some o) :
    o = none ∨ ∃ a, o = some a ∧ j ≠ .null ∧ decode? j = some a := by
  by_cases hj : j = .null
  · cases hj
    cases h
    exact .inl rfl
  · rw [decode?_option hj] at h
    obtain ⟨a, ha, rfl⟩ := Option.map_eq_some_iff.1 h
    exact .inr ⟨a, rfl, hj, ha⟩

/-- An option is lost where what it holds is written as null. -/
theorem Lossless.option (h : Lossless α depth P)
    (hnull : ∀ {j : Json} {a : α}, j ≠ .null → decode? j = some a → encode a ≠ .null) :
    Lossless (Option α) depth fun o => ∀ a ∈ o, P a ∧ encode a ≠ .null where
  decode_encode {o} ho := by
    cases o with
    | none => rfl
    | some a =>
      obtain ⟨ha, hne⟩ := ho a rfl
      show decode? (α := Option α) (encode a) = _
      rw [decode?_option hne, h.decode_encode ha, Option.map_some]
  holds hj := by
    obtain rfl | ⟨a, rfl, hne, ha⟩ := decode?_eq_of_option hj
    · exact nofun
    · rintro _ ⟨⟩
      exact ⟨h.holds ha, hnull hne ha⟩
  readable hn hj ho := by
    obtain rfl | ⟨a, rfl, -, ha⟩ := decode?_eq_of_option ho
    · exact .null
    · exact h.readable hn hj ha

theorem decodeMembers?_encode (h : Lossless α depth P) {l : List (String × α)} (hl : ∀ e ∈ l, P e.2) :
    decodeMembers? (l.map fun e => (e.1, encode e.2)) = some l := by
  induction l with
  | nil => rfl
  | cons e l ih =>
    obtain ⟨he, hl⟩ := List.forall_mem_cons.1 hl
    rw [List.map_cons, decodeMembers?, h.decode_encode he, ih hl]
    rfl

theorem mem_of_decodeMembers? {members : List (String × Json)} {l : List (String × α)}
    (h : decodeMembers? members = some l) : ∀ e ∈ l, ∃ x ∈ members, decode? x.2 = some e.2 := by
  induction members generalizing l with
  | nil =>
    cases h
    exact List.forall_mem_nil _
  | cons x members ih =>
    obtain ⟨a, ha, h⟩ := Option.bind_eq_some_iff.1 h
    obtain ⟨l, hl, h⟩ := Option.bind_eq_some_iff.1 h
    cases h
    refine List.forall_mem_cons.2 ⟨⟨x, List.mem_cons_self, ha⟩, fun e he => ?_⟩
    obtain ⟨y, hy, hye⟩ := ih hl e he
    exact ⟨y, List.mem_cons_of_mem x hy, hye⟩

/-- What is in a map was a member of the object that it was read from. -/
theorem decode?_dict {j : Json} {d : Dict α} (h : decode? j = some d) :
    ∃ members, j = .obj members ∧ ∀ e ∈ d.entries, ∃ x ∈ members, decode? x.2 = some e.2 := by
  obtain ⟨read, hread, h⟩ := Option.bind_eq_some_iff.1 h
  obtain ⟨l, hl, h⟩ := Option.bind_eq_some_iff.1 h
  cases h
  cases j with
  | obj members =>
    cases hread
    refine ⟨members, rfl, fun e he => ?_⟩
    obtain ⟨x, hx, hxe⟩ := mem_of_decodeMembers? hl e (Entries.mem_of_mem_ofList he)
    exact ⟨x, Entries.mem_of_mem_ofList hx, hxe⟩
  | _ => cases hread

theorem Lossless.dict (h : Lossless α depth P) :
    Lossless (Dict α) (depth + 1) fun d => ∀ k a, d.get? k = some a → P a where
  decode_encode {d} hd := by
    have hmembers : (Dict.ofList (d.map fun _ a => encode a).entries).entries = (d.map fun _ a => encode a).entries :=
      Entries.ofList_of_ordered (d.map fun _ a => encode a).ordered
    have hread : decodeMembers? (d.map fun _ a => encode a).entries = some d.entries :=
      decodeMembers?_encode h fun e he => hd e.1 e.2 (Dict.get?_eq_some_iff.2 he)
    show (decodeMembers? (Dict.ofList (d.map fun _ a => encode a).entries).entries).bind (some <| Dict.ofList ·) = _
    rw [hmembers, hread, Option.bind_some]
    exact congrArg some (Dict.ext (Entries.ofList_of_ordered d.ordered))
  holds hj k a hk := by
    obtain ⟨members, -, hmem⟩ := decode?_dict hj
    obtain ⟨x, -, hx⟩ := hmem (k, a) (Dict.get?_eq_some_iff.1 hk)
    exact h.holds hx
  readable {n j d} hn hj hd := by
    obtain ⟨members, rfl, hmem⟩ := decode?_dict hd
    obtain ⟨m, rfl, hmembers⟩ : ∃ m, n = m + 1 ∧ ∀ e ∈ members, Readable m e.2 := by
      cases hj with
      | obj _ h => exact ⟨_, rfl, h⟩
    refine .obj (d.map fun _ => encode).ordered fun _ hy => ?_
    obtain ⟨e, he, rfl⟩ := List.mem_map.1 hy
    obtain ⟨x, hx, hxe⟩ := hmem e he
    exact h.readable (Nat.le_of_succ_le_succ hn) (hmembers x hx) hxe

end

theorem readable_encode_names (s : Names) {n : Nat} (hn : 1 ≤ n) : Readable n (encode s) := by
  obtain ⟨m, rfl⟩ := Nat.exists_eq_add_of_le' hn
  refine .arr fun x hx => ?_
  obtain ⟨t, -, rfl⟩ := List.mem_map.1 hx
  exact .str t

theorem lossless_option_string : Lossless (Option String) 0 fun _ => True :=
  (lossless_string.option fun _ _ => nofun).congr fun _ => iff_of_true trivial fun _ _ => ⟨trivial, nofun⟩

theorem lossless_option_json : Lossless (Option Json) 0 (· ≠ some .null) :=
  (lossless_json.option fun hj h he => hj (Option.some.inj (h.trans (congrArg some he)))).congr fun _ =>
    ⟨fun hne _ ho => ⟨trivial, fun he => hne (ho.trans (congrArg some he))⟩, fun h ho => (h .null ho).2 rfl⟩

/-- A set is written as an array of strings, whatever array it was read from. -/
theorem lossless_names : Lossless Names 1 fun _ => True where
  decode_encode {s} _ := by
    have hkeys : s.keys.map (fun n => (n, ())) = s.entries := by
      rw [Dict.keys, List.map_map]
      exact List.map_id _
    have hread : decode? (encode s.keys) = some s.keys := lossless_string.list.decode_encode fun _ _ => trivial
    show (decode? (encode s.keys)).bind (some <| Names.ofNames ·) = _
    rw [hread, Option.bind_some, Names.ofNames, hkeys]
    exact congrArg some (Dict.ext (Entries.ofList_of_ordered s.ordered))
  holds _ := trivial
  readable hn _ _ := readable_encode_names _ hn

/-! ## Fields of records -/

section

variable {α : Type} [JsonForm α] {depth n : Nat} {P : α → Prop} {k : String} {a d : α} {f : List (String × Json)}

theorem Lossless.required_holds (h : Lossless α depth P) (ha : required? f k = some a) : P a := by
  obtain ⟨j, -, hj⟩ := Option.bind_eq_some_iff.1 ha
  exact h.holds hj

theorem Lossless.required_readable (h : Lossless α depth P) (hn : depth ≤ n) (hf : AllReadable n f)
    (ha : required? f k = some a) : Readable n (encode a) := by
  obtain ⟨j, hfind, hj⟩ := Option.bind_eq_some_iff.1 ha
  exact h.readable hn (hf (k, j) (Entries.mem_of_find? hfind)) hj

theorem Lossless.optional_holds (h : Lossless α depth P) (hd : P d) (ha : optional? f k d = some a) : P a := by
  unfold optional? at ha
  split at ha
  · exact h.holds ha
  · cases ha
    exact hd

theorem Lossless.optional_readable (h : Lossless α depth P) (hn : depth ≤ n) (hf : AllReadable n f)
    (hd : Readable n (encode d)) (ha : optional? f k d = some a) : Readable n (encode a) := by
  unfold optional? at ha
  split at ha
  · next j hfind => exact h.readable hn (hf (k, j) (Entries.mem_of_find? hfind)) ha
  · cases ha
    exact hd

theorem readable_encode_empty (hn : 1 ≤ n) : Readable n (encode (∅ : Dict α)) := by
  obtain ⟨m, rfl⟩ := Nat.exists_eq_add_of_le' hn
  exact .obj Entries.ordered_nil (List.forall_mem_nil _)

theorem readable_encode_nil (hn : 1 ≤ n) : Readable n (encode ([] : List α)) := by
  obtain ⟨m, rfl⟩ := Nat.exists_eq_add_of_le' hn
  exact .arr (List.forall_mem_nil _)

end

/-! ## Texts -/

section

variable {α : Type} [JsonForm α] {depth : Nat} {P : α → Prop}

/-- The text of a value. -/
def toText (a : α) : String := text (encode a)

/-- The value that a text gives. -/
def ofText? (s : String) : Option α := (read? s).bind decode?

/-- What is written is read back, and what was read is written as something that is read as the same. -/
structure RoundTrips (α : Type) [JsonForm α] (P : α → Prop) : Prop where
  value (a : α) : decode? (encode a) = some a ↔ P a
  /-- By way of its text a value comes back if the text can be read at all. -/
  text (a : α) : ofText? (toText a) = some a ↔ P a ∧ Readable Reading.maxOpen (encode a)
  value_again (j : Json) (a : α) : decode? j = some a → decode? (encode a) = some a
  text_again (s : String) (a : α) :
    ofText? s = some a → ofText? (toText a) = some a ∧ (ofText? (α := α) (toText a)).map toText = some (toText a)

theorem Lossless.ofText?_toText_iff (h : Lossless α depth P) (hdepth : depth ≤ Reading.maxOpen) (a : α) :
    ofText? (toText a) = some a ↔ P a ∧ Readable Reading.maxOpen (encode a) := by
  constructor
  · intro hread
    obtain ⟨j, hj, hja⟩ := Option.bind_eq_some_iff.1 hread
    exact ⟨h.holds hja, h.readable hdepth (readable_of_read? hj) hja⟩
  · rintro ⟨ha, hr⟩
    rw [ofText?, toText, read?_text hr, Option.bind_some, h.decode_encode ha]

theorem Lossless.roundTrips (h : Lossless α depth P) (hdepth : depth ≤ Reading.maxOpen) : RoundTrips α P where
  value _ := ⟨h.holds, h.decode_encode⟩
  text := h.ofText?_toText_iff hdepth
  value_again _ _ hj := h.decode_encode (h.holds hj)
  text_again s a hs := by
    obtain ⟨j, hj, hja⟩ := Option.bind_eq_some_iff.1 hs
    have hagain : ofText? (toText a) = some a :=
      (h.ofText?_toText_iff hdepth a).2 ⟨h.holds hja, h.readable hdepth (readable_of_read? hj) hja⟩
    exact ⟨hagain, by rw [hagain, Option.map_some]⟩

end

end JsonForm

end Patchbay
