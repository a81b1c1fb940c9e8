import Patchbay.Proofs.Json.Numeral

/-! The text of a JSON value tells which value it is: no two values are written alike. No control character is in it. -/

namespace Patchbay.Json

open Token

/-! ## Strings -/

theorem hexWord?_hexDigit (n : Fin 32) :
    hexWord? '0' '0' (hexDigit (n / 16)) (hexDigit n) = some n.val := by
  revert n
  decide

theorem scanString?_control {c : Char} (hc : c.toNat < 32) (rest : List Char) :
    scanString? ('\\' :: 'u' :: '0' :: '0' :: hexDigit (c.toNat / 16) :: hexDigit c.toNat :: rest) =
      (scanString? rest).map fun x => (c :: x.1, x.2) := by
  have hhex := hexWord?_hexDigit ⟨c.toNat, hc⟩
  have hhigh : ¬(0xD800 ≤ c.toNat ∧ c.toNat < 0xDC00) := by omega
  have hlow : ¬(0xDC00 ≤ c.toNat ∧ c.toNat < 0xE000) := by omega
  have hnone : ¬(0xD800 ≤ c.toNat ∧ c.toNat < 0xE000) := by omega
  by_cases hnext : ∃ e f g h r, rest = '\\' :: 'u' :: e :: f :: g :: h :: r
  · obtain ⟨e, f, g, h, r, rfl⟩ := hnext
    rw [scanString?.eq_3]
    simp only [hhex, Option.bind_eq_bind, Option.bind_some, if_neg hhigh, if_neg hlow, Char.ofNat_toNat]
    cases scanString? ('\\' :: 'u' :: e :: f :: g :: h :: r) <;> rfl
  · rw [scanString?.eq_4 _ _ _ _ _ fun e f g h r he => hnext ⟨e, f, g, h, r, he⟩]
    simp only [hhex, Option.bind_eq_bind, Option.bind_some, if_neg hnone, Char.ofNat_toNat]
    cases scanString? rest <;> rfl

theorem scanString?_escape {c e : Char} (hu : e ≠ 'u') (he : escaped? e = some c) (rest : List Char) :
    scanString? ('\\' :: e :: rest) = (scanString? rest).map fun x => (c :: x.1, x.2) := by
  rw [scanString?.eq_5]
  · simp only [he, Option.bind_eq_bind, Option.bind_some]
    cases scanString? rest <;> rfl
  all_goals simp [hu]

theorem scanString?_plain {c : Char} (hquote : c ≠ '"') (hslash : c ≠ '\\') (hc : ¬c.toNat < 32)
    (rest : List Char) : scanString? (c :: rest) = (scanString? rest).map fun x => (c :: x.1, x.2) := by
  rw [scanString?.eq_6]
  · rw [if_neg hc]
    cases scanString? rest <;> rfl
  all_goals simp [hquote, hslash]

theorem scanString?_escapeChar (c : Char) (rest : List Char) :
    scanString? ((escapeChar c).toList ++ rest) = (scanString? rest).map fun x => (c :: x.1, x.2) := by
  unfold escapeChar
  iterate 7
    split
    · next hc =>
      subst hc
      exact scanString?_escape (by decide) rfl rest
  split
  · next hc =>
    rw [String.toList_append, String.toList_ofList, String.toList_ofList, List.append_assoc]
    exact scanString?_control hc rest
  · next hquote hslash _ _ _ _ _ hc =>
    rw [String.toList_singleton, List.singleton_append]
    exact scanString?_plain hquote hslash hc rest

theorem scanString?_escaped (s rest : List Char) :
    scanString? (s.flatMap (fun c => (escapeChar c).toList) ++ '"' :: rest) = some (s, rest) := by
  induction s with
  | nil => rfl
  | cons c s ih => rw [List.flatMap_cons, List.append_assoc, scanString?_escapeChar, ih, Option.map_some]

theorem toList_quote_append (s : String) (rest : List Char) :
    (quote s).toList ++ rest = '"' :: (s.toList.flatMap (fun c => (escapeChar c).toList) ++ '"' :: rest) := by
  simp [quote, String.toList_append, String.toList_join, List.flatMap_map]

theorem quote_append_inj {s t : String} {as bs : List Char}
    (h : (quote s).toList ++ as = (quote t).toList ++ bs) : s = t ∧ as = bs := by
  rw [toList_quote_append, toList_quote_append] at h
  have hscan := congrArg scanString? (List.cons.inj h).2
  rw [scanString?_escaped, scanString?_escaped] at hscan
  obtain ⟨hs, hrest⟩ := Prod.mk.inj (Option.some.inj hscan)
  exact ⟨String.toList_injective hs, hrest⟩

/-! ## Values -/

/-- The type of the values whose text begins with a character. -/
def typeOf (c : Char) : String :=
  if c = 'n' then "null"
  else if c = 't' ∨ c = 'f' then "boolean"
  else if c = '"' then "string"
  else if c = '[' then "array"
  else if c = '\x7b' then "object"
  else if c.isDigit ∨ c = '-' then "number"
  else ""

theorem typeOf_of_isDigit {c : Char} (h : c.isDigit = true) : typeOf c = "number" := by
  have hne {d : Char} (hd : d.isDigit = false) : c ≠ d := by
    rintro rfl
    rw [hd] at h
    cases h
  rw [typeOf, if_neg (hne rfl), if_neg (not_or.2 ⟨hne rfl, hne rfl⟩), if_neg (hne rfl), if_neg (hne rfl),
    if_neg (hne rfl), if_pos (.inl h)]

theorem head?_text (v : Json) : ∃ c, (text v).toList.head? = some c ∧ typeOf c = v.typeName := by
  cases v with
  | null => exact ⟨'n', rfl, rfl⟩
  | bool b => cases b <;> [exact ⟨'f', rfl, rfl⟩; exact ⟨'t', rfl, rfl⟩]
  | num n =>
    obtain ⟨c, hc, hdigit⟩ := (proper_numeral n).head?_chars
    rw [← toList_numberText] at hc
    refine ⟨c, hc, ?_⟩
    rcases hdigit with hdigit | rfl
    · exact typeOf_of_isDigit hdigit
    · rfl
  | str s =>
    refine ⟨'"', ?_, rfl⟩
    have h := toList_quote_append s []
    rw [List.append_nil] at h
    rw [text, h, List.head?_cons]
  | arr items => exact ⟨'[', by simp [text], rfl⟩
  | obj members => exact ⟨'\x7b', by simp [text], rfl⟩

theorem typeName_eq {u v : Json} {as bs : List Char} (h : (text u).toList ++ as = (text v).toList ++ bs) :
    u.typeName = v.typeName := by
  obtain ⟨c, hc, hu⟩ := head?_text u
  obtain ⟨d, hd, hv⟩ := head?_text v
  have hhead := congrArg List.head? h
  rw [List.head?_append, List.head?_append, hc, hd] at hhead
  rw [← hu, ← hv, Option.some.inj hhead]

/-! ## Lists -/

/-- Texts with a comma before each. -/
def listed (l : List String) : List Char := l.flatMap fun s => ',' :: s.toList

theorem toList_intercalate_cons (s : String) (l : List String) :
    (",".intercalate (s :: l)).toList = s.toList ++ listed l := by
  induction l generalizing s with
  | nil => simp [listed]
  | cons t l ih =>
    rw [String.intercalate_cons_cons, String.toList_append, String.toList_append, ih, List.append_assoc]
    rfl

theorem follows_listed (l : List String) {c : Char} (hc : c = ']' ∨ c = '\x7d') (as : List Char) :
    Follows (listed l ++ c :: as) := by
  cases l with
  | nil =>
    rintro _ ⟨⟩
    exact .inr hc
  | cons s l =>
    rintro _ ⟨⟩
    exact .inl rfl

/-- The text is not empty and does not begin with a character. -/
def NotAt (c : Char) (s : String) : Prop := ∃ d, s.toList.head? = some d ∧ d ≠ c

/-- Where no text begins with the bracket that closes the list, an empty list is not taken for another. -/
theorem listed_eq_of_intercalate {c : Char} {l m : List String} {as bs : List Char} (hl : ∀ s ∈ l, NotAt c s)
    (hm : ∀ s ∈ m, NotAt c s)
    (h : (",".intercalate l).toList ++ c :: as = (",".intercalate m).toList ++ c :: bs) :
    listed l ++ c :: as = listed m ++ c :: bs := by
  have hempty {s : String} {m : List String} {as bs : List Char} (hs : NotAt c s) :
      c :: as ≠ (",".intercalate (s :: m)).toList ++ c :: bs := by
    intro h
    obtain ⟨d, hd, hne⟩ := hs
    have hhead := congrArg List.head? h
    rw [toList_intercalate_cons, List.append_assoc, List.head?_append, hd, List.head?_cons] at hhead
    exact hne (Option.some.inj hhead).symm
  cases l with
  | nil =>
    cases m with
    | nil => exact h
    | cons t m => exact absurd h (hempty (hm t List.mem_cons_self))
  | cons s l =>
    cases m with
    | nil => exact absurd h.symm (hempty (hl s List.mem_cons_self))
    | cons t m =>
      rw [toList_intercalate_cons, toList_intercalate_cons] at h
      exact congrArg (List.cons ',') h

theorem notAt_itemTexts (us : List Json) : ∀ s ∈ itemTexts us, NotAt ']' s := by
  induction us with
  | nil => nofun
  | cons u us ih =>
    refine List.forall_mem_cons.2 ⟨?_, ih⟩
    obtain ⟨c, hc, htype⟩ := head?_text u
    refine ⟨c, hc, ?_⟩
    rintro rfl
    rw [show typeOf ']' = "" from rfl] at htype
    cases u <;> simp [typeName] at htype

theorem notAt_memberTexts (us : List (String × Json)) : ∀ s ∈ memberTexts us, NotAt '\x7d' s := by
  induction us with
  | nil => nofun
  | cons u us ih =>
    refine List.forall_mem_cons.2 ⟨⟨'"', ?_, by decide⟩, ih⟩
    rw [String.append_assoc, String.toList_append, toList_quote_append, List.head?_cons]

theorem toList_arr_append (us : List Json) (as : List Char) :
    (text (.arr us)).toList ++ as = '[' :: ((",".intercalate (itemTexts us)).toList ++ ']' :: as) := by
  simp [text]

theorem toList_obj_append (us : List (String × Json)) (as : List Char) :
    (text (.obj us)).toList ++ as = '\x7b' :: ((",".intercalate (memberTexts us)).toList ++ '\x7d' :: as) := by
  simp [text]

/-! ## Values of one text -/

mutual

/-- The text of a value tells which value it is, and where it ends. -/
theorem text_append_inj : ∀ (u v : Json) {as bs : List Char}, Follows as → Follows bs →
    (text u).toList ++ as = (text v).toList ++ bs → u = v ∧ as = bs
  | .null, v, as, bs, ha, hb, h => by
    have hv := typeName_eq h
    cases v <;> simp [typeName] at hv
    exact ⟨rfl, List.append_cancel_left h⟩
  | .bool b, v, as, bs, ha, hb, h => by
    have hv := typeName_eq h
    cases v <;> simp [typeName] at hv
    next c =>
    cases b <;> cases c
    · exact ⟨rfl, List.append_cancel_left h⟩
    · cases h
    · cases h
    · exact ⟨rfl, List.append_cancel_left h⟩
  | .num m, v, as, bs, ha, hb, h => by
    have hv := typeName_eq h
    cases v <;> simp [typeName] at hv
    obtain ⟨rfl, hrest⟩ := numberText_append_inj ha hb h
    exact ⟨rfl, hrest⟩
  | .str s, v, as, bs, ha, hb, h => by
    have hv := typeName_eq h
    cases v <;> simp [typeName] at hv
    obtain ⟨rfl, hrest⟩ := quote_append_inj h
    exact ⟨rfl, hrest⟩
  | .arr us, v, as, bs, ha, hb, h => by
    have hv := typeName_eq h
    cases v <;> simp [typeName] at hv
    next vs =>
    rw [toList_arr_append, toList_arr_append] at h
    obtain ⟨rfl, hrest⟩ := items_append_inj us vs
      (listed_eq_of_intercalate (notAt_itemTexts us) (notAt_itemTexts vs) (List.cons.inj h).2)
    exact ⟨rfl, hrest⟩
  | .obj us, v, as, bs, ha, hb, h => by
    have hv := typeName_eq h
    cases v <;> simp [typeName] at hv
    next vs =>
    rw [toList_obj_append, toList_obj_append] at h
    obtain ⟨rfl, hrest⟩ := members_append_inj us vs
      (listed_eq_of_intercalate (notAt_memberTexts us) (notAt_memberTexts vs) (List.cons.inj h).2)
    exact ⟨rfl, hrest⟩

theorem items_append_inj : ∀ (us vs : List Json) {as bs : List Char},
    listed (itemTexts us) ++ ']' :: as = listed (itemTexts vs) ++ ']' :: bs → us = vs ∧ as = bs
  | [], [], as, bs, h => ⟨rfl, (List.cons.inj h).2⟩
  | [], v :: vs, as, bs, h => nomatch h
  | u :: us, [], as, bs, h => nomatch h
  | u :: us, v :: vs, as, bs, h => by
    simp only [itemTexts, listed, List.flatMap_cons, List.cons_append, List.append_assoc] at h
    obtain ⟨rfl, hrest⟩ := text_append_inj u v (follows_listed (itemTexts us) (.inl rfl) as)
      (follows_listed (itemTexts vs) (.inl rfl) bs) (List.cons.inj h).2
    obtain ⟨rfl, hend⟩ := items_append_inj us vs hrest
    exact ⟨rfl, hend⟩

theorem members_append_inj : ∀ (us vs : List (String × Json)) {as bs : List Char},
    listed (memberTexts us) ++ '\x7d' :: as = listed (memberTexts vs) ++ '\x7d' :: bs → us = vs ∧ as = bs
  | [], [], as, bs, h => ⟨rfl, (List.cons.inj h).2⟩
  | [], v :: vs, as, bs, h => nomatch h
  | u :: us, [], as, bs, h => nomatch h
  | (k, u) :: us, (l, v) :: vs, as, bs, h => by
    simp only [memberTexts, listed, List.flatMap_cons, List.cons_append, List.append_assoc, String.append_assoc,
      String.toList_append] at h
    obtain ⟨rfl, hvalue⟩ := quote_append_inj (List.cons.inj h).2
    obtain ⟨rfl, hrest⟩ := text_append_inj u v (follows_listed (memberTexts us) (.inr rfl) as)
      (follows_listed (memberTexts vs) (.inr rfl) bs) (List.append_cancel_left hvalue)
    obtain ⟨rfl, hend⟩ := members_append_inj us vs hrest
    exact ⟨rfl, hend⟩

end

/-- No two values have one text. -/
theorem text_injective : Function.Injective text := by
  intro u v h
  have hnil : Follows [] := nofun
  exact (text_append_inj u v hnil hnil (congrArg (fun s => s.toList ++ []) h)).1

/-! ## Control characters -/

/-- There is no control character among them. -/
def Printable (cs : List Char) : Prop := ∀ c ∈ cs, 32 ≤ c.toNat

theorem printable_of_all {cs : List Char} (h : (cs.all fun c => 32 ≤ c.toNat) = true) : Printable cs :=
  fun c hc => of_decide_eq_true (List.all_eq_true.1 h c hc)

theorem printable_of_isDigit {ds : List Char} (h : ∀ c ∈ ds, c.isDigit = true) : Printable ds := by
  intro c hc
  have hdigit := h c hc
  rw [Char.isDigit, Bool.and_eq_true, decide_eq_true_iff, ge_iff_le, UInt32.le_iff_toNat_le] at hdigit
  exact le_trans (by decide) hdigit.1

theorem Printable.append {cs ds : List Char} (hc : Printable cs) (hd : Printable ds) : Printable (cs ++ ds) :=
  List.forall_mem_append.2 ⟨hc, hd⟩

theorem Printable.cons {c : Char} {cs : List Char} (hc : 32 ≤ c.toNat) (hcs : Printable cs) : Printable (c :: cs) :=
  List.forall_mem_cons.2 ⟨hc, hcs⟩

theorem Numeral.Proper.printable {n : Numeral} (h : n.Proper) : Printable n.chars := by
  refine .append ?_ (.append (printable_of_isDigit h.whole_digits.2) (.append ?_ ?_))
  · cases n.neg
    · exact nofun
    · exact .cons (by decide) nofun
  · cases hf : n.fraction with
    | none => exact nofun
    | some ds => exact .cons (by decide) (printable_of_isDigit (h.fraction_digits ds hf).2)
  · cases n.exponent with
    | none => exact nofun
    | some e =>
      refine .cons (by decide) (.cons ?_ (printable_of_isDigit isDigit_toDigits))
      split <;> decide

theorem printable_escapeChar (c : Char) : Printable (escapeChar c).toList := by
  have hhex (n : Nat) : 32 ≤ (hexDigit n).toNat := by
    have hall : ∀ d < 16, 32 ≤ (Nat.digitChar d).toNat := by decide
    exact hall (n % 16) (Nat.mod_lt n (by decide))
  unfold escapeChar
  iterate 7
    split
    · exact printable_of_all (by decide)
  split
  · rw [String.toList_append, String.toList_ofList, String.toList_ofList]
    exact .append (printable_of_all (by decide)) (.cons (hhex _) (.cons (hhex _) nofun))
  · next hc =>
    rw [String.toList_singleton]
    exact .cons (Nat.le_of_not_lt hc) nofun

theorem printable_quote (s : String) : Printable (quote s).toList := by
  have h := toList_quote_append s []
  rw [List.append_nil] at h
  rw [h]
  refine .cons (by decide) (.append (fun c hc => ?_) (.cons (by decide) nofun))
  obtain ⟨d, -, hd⟩ := List.mem_flatMap.1 hc
  exact printable_escapeChar d c hd

theorem printable_intercalate {l : List String} (h : ∀ s ∈ l, Printable s.toList) :
    Printable (",".intercalate l).toList := by
  cases l with
  | nil => exact nofun
  | cons s l =>
    rw [toList_intercalate_cons]
    refine .append (h s List.mem_cons_self) fun c hc => ?_
    obtain ⟨t, ht, hc⟩ := List.mem_flatMap.1 hc
    exact Printable.cons (by decide) (h t (List.mem_cons_of_mem s ht)) c hc

mutual

/-- The text of a value has no control character in it: those of strings are escaped. -/
theorem printable_text : ∀ v : Json, Printable (text v).toList
  | .null => printable_of_all (by decide)
  | .bool b => by cases b <;> exact printable_of_all (by decide)
  | .num n => by
    rw [text, toList_numberText]
    exact (proper_numeral n).printable
  | .str s => printable_quote s
  | .arr items => by
    rw [← List.append_nil (text _).toList, toList_arr_append]
    exact .cons (by decide) (.append (printable_intercalate (printable_itemTexts items)) (.cons (by decide) nofun))
  | .obj members => by
    rw [← List.append_nil (text _).toList, toList_obj_append]
    exact .cons (by decide) (.append (printable_intercalate (printable_memberTexts members)) (.cons (by decide) nofun))

theorem printable_itemTexts : ∀ us : List Json, ∀ s ∈ itemTexts us, Printable s.toList
  | [] => nofun
  | u :: us => List.forall_mem_cons.2 ⟨printable_text u, printable_itemTexts us⟩

theorem printable_memberTexts : ∀ us : List (String × Json), ∀ s ∈ memberTexts us, Printable s.toList
  | [] => nofun
  | (k, u) :: us => by
    refine List.forall_mem_cons.2 ⟨?_, printable_memberTexts us⟩
    rw [String.toList_append, String.toList_append]
    exact .append (.append (printable_quote k) (.cons (by decide) nofun)) (printable_text u)

end

end Patchbay.Json
