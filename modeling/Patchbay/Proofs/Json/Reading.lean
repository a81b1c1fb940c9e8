import Patchbay.Json.Reader
import Patchbay.Proofs.Dict
import Patchbay.Proofs.Json.Text
import Patchbay.Proofs.Json.Value

/-! Reading a text that was written. The values that can be read are those whose numbers are as they are outside of the
model, whose members stand in order, and that are not nested too deeply; each of them is what is read from its own
text. -/

namespace Patchbay.Json

open Token

/-! ## What can be read -/

/-- A value that there can be in a text where so many containers may be opened yet. -/
inductive Readable : Nat → Json → Prop
  | null {n} : Readable n .null
  | bool {n} (b : Bool) : Readable n (.bool b)
  | int {n} {i : Int} (h : minInt64 ≤ i ∧ i ≤ maxNat64) : Readable n (.num (.int i))
  | float {n} (x : Double) : Readable n (.num (.float x))
  | str {n} (s : String) : Readable n (.str s)
  | arr {n} {items : List Json} (h : ∀ x ∈ items, Readable n x) : Readable (n + 1) (.arr items)
  | obj {n} {members : List (String × Json)} (ho : Entries.Ordered members) (h : ∀ e ∈ members, Readable n e.2) :
    Readable (n + 1) (.obj members)

theorem Readable.mono {n m : Nat} {v : Json} (h : Readable n v) (hm : n ≤ m) : Readable m v := by
  induction h generalizing m with
  | null => exact .null
  | bool b => exact .bool b
  | int h => exact .int h
  | float x => exact .float x
  | str s => exact .str s
  | arr _ ih =>
    obtain ⟨m, rfl⟩ := Nat.exists_eq_add_of_lt hm
    exact .arr fun x hx => ih x hx (by omega)
  | obj ho _ ih =>
    obtain ⟨m, rfl⟩ := Nat.exists_eq_add_of_lt hm
    exact .obj ho fun e he => ih e he (by omega)

theorem Readable.valid {n : Nat} {v : Json} (h : Readable n v) : v.Valid := by
  induction h with
  | null => exact .null
  | bool b => exact .bool b
  | int h => exact .int h
  | float x => exact .float x
  | str s => exact .str s
  | arr _ ih => exact .arr ih
  | obj ho _ ih => exact .obj ho ih

/-! ## Numbers -/

/-- A whole part of more than one digit does not begin with zero. -/
def NoLeadingZero (ds : List Char) : Prop := ¬(ds.head? = some '0' ∧ 1 < ds.length)

theorem eq_zero_of_head?_toDigits {n : Nat} (h : (Nat.toDigits 10 n).head? = some '0') : n = 0 := by
  induction n using Nat.strongRecOn with
  | ind n ih =>
    rcases Nat.lt_or_ge n 10 with hlt | hge
    · rw [Nat.toDigits_of_lt_base hlt] at h
      have hall : ∀ d < 10, [Nat.digitChar d].head? = some '0' → d = 0 := by decide
      exact hall n hlt h
    · rw [Nat.toDigits_of_base_le (by decide) hge, List.head?_append_of_ne_nil _ Nat.toDigits_ne_nil] at h
      have hzero := ih (n / 10) (Nat.div_lt_self (by omega) (by decide)) h
      omega

theorem noLeadingZero_intNumeral (i : Int) : NoLeadingZero (intNumeral i).whole := by
  rintro ⟨hhead, hlong⟩
  have hzero : i.natAbs = 0 := eq_zero_of_head?_toDigits hhead
  simp only [intNumeral, hzero] at hlong
  exact absurd hlong (Nat.lt_irrefl 1)

/-- Zero is the only double whose digits are zero, and it is written without an exponent. -/
theorem exp_of_coeff_eq_zero {x : Double} (h : x.shortest.coeff = 0) : x.shortest.exp = 0 := by
  unfold Double.shortest at h ⊢
  split
  · rfl
  next hmag =>
  rw [if_neg hmag] at h
  have hexact : x.exactDecimal.coeff ≠ 0 :=
    (Nat.mul_pos (Nat.pos_of_ne_zero hmag) (Nat.pow_pos (by decide))).ne'
  dsimp only at h ⊢
  split at h
  · next c drop hc =>
    split at h
    · next hy =>
      obtain rfl : c = 0 := h
      rw [Decimal.toDouble?_zero, Double.ofUnits?] at hy
      split at hy
      · have hx : Double.nearestMagnitude 0 1 = x.mag := congrArg Double.mag (Option.some.inj hy)
        have hzero : Double.nearestMagnitude 0 1 = 0 := Double.nearestMagnitude_of_isMagnitude Double.zero.isMagnitude
        exact absurd (hx.symm.trans hzero) hmag
      · cases hy
    · exact absurd h hexact
  · exact absurd h hexact

theorem noLeadingZero_numeral (x : Double) : NoLeadingZero (decimalLayout.numeral x.shortest).whole := by
  have hone (ds : List Char) (hds : ds.length ≤ 1) : NoLeadingZero ds := fun h => absurd h.2 (Nat.not_lt.2 hds)
  simp only [DecimalLayout.numeral]
  split
  · exact hone _ (List.length_take_le 1 _)
  split
  · exact hone _ (Nat.le_refl 1)
  · rintro ⟨hhead, hlong⟩
    dsimp only at hhead hlong
    -- only zero begins with a zero, and its point stands right behind it
    have htake (n : Nat) : (Nat.toDigits 10 x.shortest.coeff).take (n + 1) ≠ [] :=
      fun h => Nat.toDigits_ne_nil ((List.take_eq_nil_iff.1 h).resolve_left (Nat.succ_ne_zero n))
    rw [List.head?_append_of_ne_nil _ (htake _), List.head?_take, if_neg (Nat.succ_ne_zero _)] at hhead
    have hcoeff := eq_zero_of_head?_toDigits hhead
    rw [hcoeff, exp_of_coeff_eq_zero hcoeff] at hlong
    exact absurd hlong (by decide)

theorem noLeadingZero_whole (n : Number) : NoLeadingZero (numeral n).whole := by
  cases n with
  | int i => exact noLeadingZero_intNumeral i
  | float x => exact noLeadingZero_numeral x

/-- What a numeral stands for is read where it stands. -/
theorem scanNumber?_chars {n : Numeral} {as : List Char} (h : n.Proper) (hzero : NoLeadingZero n.whole)
    (ha : Follows as) :
    scanNumber? (n.chars ++ as) = (number? n.neg n.whole n.fraction n.exponent).map fun x => (x, as) := by
  have hwhole : ¬(n.whole.isEmpty = true ∨ (n.whole.head? = some '0' ∧ 1 < n.whole.length)) :=
    not_or.2 ⟨by simpa using h.whole_digits.1, hzero⟩
  have hspan := spanDigits_append h.whole_digits.2 (Numeral.noDigit_fractionChars n.fraction n.exponent ha)
  have hunsigned : ∀ r, n.whole ++ (Numeral.fractionChars n.fraction ++ (Numeral.exponentChars n.exponent ++ as)) =
      '-' :: r → False := by
    obtain ⟨c, ds, hds⟩ := List.exists_cons_of_ne_nil h.whole_digits.1
    intro r hr
    rw [hds] at hr
    cases (List.cons.inj hr).1
    exact absurd (h.whole_digits.2 '-' (hds ▸ List.mem_cons_self)) (by decide)
  rw [Numeral.chars, List.append_assoc, List.append_assoc, List.append_assoc]
  cases n.neg with
  | true =>
    rw [Numeral.signChars, List.singleton_append, scanNumber?, hspan]
    simp only [if_neg hwhole, h.scanFraction?_append ha, Numeral.scanExponent?_append n.exponent ha,
      Option.bind_eq_bind, Option.bind_some]
    cases number? true n.whole n.fraction n.exponent <;> rfl
  | false =>
    rw [Numeral.signChars, List.nil_append, scanNumber?, hspan]
    · simp only [if_neg hwhole, h.scanFraction?_append ha, Numeral.scanExponent?_append n.exponent ha,
        Option.bind_eq_bind, Option.bind_some]
      cases number? false n.whole n.fraction n.exponent <;> rfl
    · exact hunsigned

/-- A number that is written with a point or an exponent is a double. -/
theorem number?_decimal {n : Numeral} (h : n.fraction.isSome = true ∨ n.exponent.isSome = true) :
    number? n.neg n.whole n.fraction n.exponent = n.decimal.toDouble?.map .float := by
  unfold number?
  refine if_neg ?_
  rintro ⟨hf, he, -⟩
  rw [Option.isNone_iff_eq_none] at hf he
  rw [hf, he] at h
  exact h.elim Bool.false_ne_true Bool.false_ne_true

theorem number?_numeral {n : Number} (h : (Json.num n).Valid) :
    number? (numeral n).neg (numeral n).whole (numeral n).fraction (numeral n).exponent = some n := by
  cases n with
  | int i =>
    cases h with
    | int h =>
      have hsign : (if decide (i < 0) = true then -(i.natAbs : Int) else i.natAbs) = i := by
        split
        · next hi => have := of_decide_eq_true hi; omega
        · next hi => have := of_decide_eq_false (Bool.eq_false_iff.2 hi); omega
      have hzero : ¬(decide (i < 0) = true ∧ i.natAbs = 0) := by
        rw [decide_eq_true_iff]
        omega
      simp only [number?, numeral, intNumeral, digitsValue_toDigits, hsign]
      exact if_pos ⟨rfl, rfl, h.1, h.2, hzero⟩
  | float x =>
    rw [numeral, number?_decimal (decimalLayout.isSome_numeral x.shortest), toDouble?_decimal_numeral]
    rfl

theorem scanNumber?_numberText {n : Number} {as : List Char} (h : (Json.num n).Valid) (ha : Follows as) :
    scanNumber? ((numberText n).toList ++ as) = some (n, as) := by
  rw [toList_numberText, scanNumber?_chars (proper_numeral n) (noLeadingZero_whole n) ha, number?_numeral h]
  rfl

/-! ## Reading on -/

/-- Where a reading comes to with the tokens of some characters. -/
def feed (r : Reading) (cs : List Char) : Option Reading := (scan? cs).bind fun ts => ts.foldlM Reading.step? r

theorem feed_nil (r : Reading) : feed r [] = some r := by
  rw [feed, scan?]
  rfl

/-- One token is scanned and taken, and the reading goes on from there. -/
theorem feed_of_scanOne? {c : Char} {cs rest : List Char} {t : Token} (hc : isBlank c = false)
    (h : scanOne? (c :: cs) = some (t, rest)) (r : Reading) :
    feed r (c :: cs) = (r.step? t).bind fun r => feed r rest := by
  have hall : ¬(c :: cs).all isBlank = true := by simp [hc]
  have hdrop : (c :: cs).dropWhile isBlank = c :: cs := List.dropWhile_cons_of_neg (by simp [hc])
  rw [feed, scan?, if_neg hall]
  split
  · next hnone =>
    rw [hdrop, h] at hnone
    cases hnone
  · next t' rest' hsome =>
    rw [hdrop, h] at hsome
    cases hsome
    cases hscan : scan? rest with
    | none =>
      simp only [feed, hscan, Option.map_none, Option.bind_none]
      cases r.step? t <;> rfl
    | some ts => simp [feed, hscan]

theorem step?_value {t : Token} (ht : t ≠ .closeArray) (stack : List Frame) (mayClose : Bool) :
    Reading.step? (.value stack mayClose) t = Reading.startValue? stack t := by
  unfold Reading.step?
  split <;> simp_all

theorem step?_openArray {stack : List Frame} (h : stack.length < Reading.maxOpen) (mayClose : Bool) :
    Reading.step? (.value stack mayClose) .openArray = some (.value (.items [] :: stack) true) := by
  rw [step?_value (by simp)]
  exact if_pos h

theorem step?_openObject {stack : List Frame} (h : stack.length < Reading.maxOpen) (mayClose : Bool) :
    Reading.step? (.value stack mayClose) .openObject = some (.key [] stack true) := by
  rw [step?_value (by simp)]
  exact if_pos h

theorem step?_key (done : List (String × Json)) (outer : List Frame) (mayClose : Bool) (k : String) :
    Reading.step? (.key done outer mayClose) (.string k) = some (.colon k done outer) := by
  cases mayClose <;> rfl

/-- A value of one token is put in its place. -/
theorem feed_scalar {c : Char} {cs rest : List Char} {v : Json} (hc : isBlank c = false)
    (h : scanOne? (c :: cs) = some (.scalar v, rest)) (stack : List Frame) (mayClose : Bool) :
    feed (.value stack mayClose) (c :: cs) = feed (Reading.place v stack) rest := by
  rw [feed_of_scanOne? hc h, step?_value (by simp)]
  rfl

theorem scanOne?_numberText {n : Number} {as : List Char} (h : (Json.num n).Valid) (ha : Follows as) :
    ∃ c cs, (numberText n).toList ++ as = c :: cs ∧ isBlank c = false ∧
      scanOne? (c :: cs) = some (.scalar (.num n), as) := by
  have hscan := scanNumber?_numberText h ha
  obtain ⟨c, hhead, hc⟩ := (proper_numeral n).head?_chars
  rw [← toList_numberText] at hhead
  obtain ⟨cs, hcs⟩ := List.head?_eq_some_iff.1 hhead
  rw [hcs, List.cons_append] at hscan ⊢
  refine ⟨c, cs ++ as, rfl, ?_, ?_⟩
  · rcases hc with hc | rfl
    · have hne {d : Char} (hd : d.isDigit = false) : c ≠ d := by
        rintro rfl
        rw [hd] at hc
        cases hc
      simp [isBlank, hne (d := ' ') rfl, hne (d := '\n') rfl, hne (d := '\t') rfl, hne (d := '\r') rfl]
    · rfl
  · -- no other token begins with a digit or a sign
    unfold scanOne?
    split
    case h_1 hcs => cases hcs
    case h_12 => rw [hscan, Option.map_some]
    all_goals
      next hcs =>
      obtain ⟨rfl, -⟩ := List.cons.inj hcs
      exact absurd hc (by decide)

theorem scanOne?_quote (s : String) (as : List Char) :
    scanOne? ('"' :: (s.toList.flatMap (fun c => (escapeChar c).toList) ++ '"' :: as)) = some (.string s, as) := by
  simp only [scanOne?, scanString?_escaped, Option.map_some, String.ofList_toList]

theorem feed_quote (s : String) (as : List Char) (r : Reading) :
    feed r ((quote s).toList ++ as) = (r.step? (.string s)).bind fun r => feed r as := by
  rw [toList_quote_append]
  exact feed_of_scanOne? (by decide) (scanOne?_quote s as) r

/-- A member is read from its key, a colon and its value. -/
theorem feed_member (u : Json) (k : String) (done : List (String × Json)) (outer : List Frame) (mayClose : Bool)
    (as : List Char) :
    feed (.key done outer mayClose) ((quote k ++ ":" ++ text u).toList ++ as) =
      feed (.value (.members done k :: outer) false) ((text u).toList ++ as) := by
  have hparts : (quote k ++ ":" ++ text u).toList ++ as = (quote k).toList ++ ':' :: ((text u).toList ++ as) := by
    simp
  rw [hparts, feed_quote, step?_key, Option.bind_some, feed_of_scanOne? (t := .colon) (by decide) rfl]
  rfl

mutual

/-- A value that is due is read from its text and put in its place. -/
theorem feed_text : ∀ (v : Json) {n : Nat} {stack : List Frame} {mayClose : Bool} {as : List Char}, Readable n v →
    stack.length + n ≤ Reading.maxOpen → Follows as →
    feed (.value stack mayClose) ((text v).toList ++ as) = feed (Reading.place v stack) as
  | .null, n, stack, mayClose, as, _, _, _ => feed_scalar (c := 'n') (by decide) rfl stack mayClose
  | .bool true, n, stack, mayClose, as, _, _, _ => feed_scalar (c := 't') (by decide) rfl stack mayClose
  | .bool false, n, stack, mayClose, as, _, _, _ => feed_scalar (c := 'f') (by decide) rfl stack mayClose
  | .num m, n, stack, mayClose, as, hv, _, ha => by
    obtain ⟨c, cs, hcs, hblank, hscan⟩ := scanOne?_numberText hv.valid ha
    rw [text, hcs]
    exact feed_scalar hblank hscan stack mayClose
  | .str s, n, stack, mayClose, as, _, _, _ => by
    rw [text, feed_quote, step?_value (by simp)]
    rfl
  | .arr us, n, stack, mayClose, as, hv, hn, ha => by
    obtain ⟨m, rfl, hus⟩ : ∃ m, n = m + 1 ∧ ∀ u ∈ us, Readable m u := by
      cases hv with
      | arr h => exact ⟨_, rfl, h⟩
    rw [toList_arr_append, feed_of_scanOne? (t := .openArray) (by decide) rfl, step?_openArray (by omega),
      Option.bind_some]
    cases us with
    | nil => exact feed_of_scanOne? (t := .closeArray) (by decide) rfl _
    | cons u us =>
      rw [itemTexts, toList_intercalate_cons, List.append_assoc,
        feed_text u (hus u List.mem_cons_self) (by rw [List.length_cons]; omega)
          (follows_listed (itemTexts us) (.inl rfl) as), Reading.place,
        feed_items us (fun x hx => hus x (List.mem_cons_of_mem u hx)) (by omega)]
      rfl
  | .obj us, n, stack, mayClose, as, hv, hn, ha => by
    obtain ⟨m, rfl, ho, hus⟩ : ∃ m, n = m + 1 ∧ Entries.Ordered us ∧ ∀ e ∈ us, Readable m e.2 := by
      cases hv with
      | obj ho h => exact ⟨_, rfl, ho, h⟩
    rw [toList_obj_append, feed_of_scanOne? (t := .openObject) (by decide) rfl, step?_openObject (by omega),
      Option.bind_some]
    cases us with
    | nil => exact feed_of_scanOne? (t := .closeObject) (by decide) rfl _
    | cons e us =>
      obtain ⟨k, u⟩ := e
      rw [memberTexts, toList_intercalate_cons, List.append_assoc,
        feed_member, feed_text u (hus _ List.mem_cons_self) (by rw [List.length_cons]; omega)
          (follows_listed (memberTexts us) (.inr rfl) as), Reading.place,
        feed_members us (fun x hx => hus x (List.mem_cons_of_mem _ hx)) (by omega), List.reverse_singleton,
        List.singleton_append, Entries.ofList_of_ordered ho]

/-- The items that follow are read up to the end of their array. -/
theorem feed_items : ∀ (us : List Json) {n : Nat} {done : List Json} {outer : List Frame} {as : List Char},
    (∀ u ∈ us, Readable n u) → outer.length + 1 + n ≤ Reading.maxOpen →
    feed (.afterItem done outer) (listed (itemTexts us) ++ ']' :: as) =
      feed (Reading.place (.arr (done.reverse ++ us)) outer) as
  | [], n, done, outer, as, _, _ => by
    rw [List.append_nil]
    exact feed_of_scanOne? (t := .closeArray) (by decide) rfl _
  | u :: us, n, done, outer, as, hus, hn => by
    have hlisted : listed (itemTexts (u :: us)) ++ ']' :: as =
        ',' :: ((text u).toList ++ (listed (itemTexts us) ++ ']' :: as)) := by
      simp [listed, itemTexts]
    rw [hlisted, feed_of_scanOne? (t := .comma) (by decide) rfl, Reading.step?, Option.bind_some,
      feed_text u (hus u List.mem_cons_self) (by rw [List.length_cons]; omega)
        (follows_listed (itemTexts us) (.inl rfl) as), Reading.place,
      feed_items us (fun x hx => hus x (List.mem_cons_of_mem u hx)) hn, List.reverse_cons, List.append_assoc]
    rfl

/-- The members that follow are read up to the end of their object. -/
theorem feed_members : ∀ (us : List (String × Json)) {n : Nat} {done : List (String × Json)} {outer : List Frame}
    {as : List Char}, (∀ e ∈ us, Readable n e.2) → outer.length + 1 + n ≤ Reading.maxOpen →
    feed (.afterMember done outer) (listed (memberTexts us) ++ '\x7d' :: as) =
      feed (Reading.place (.obj (Entries.ofList (done.reverse ++ us))) outer) as
  | [], n, done, outer, as, _, _ => by
    rw [List.append_nil]
    exact feed_of_scanOne? (t := .closeObject) (by decide) rfl _
  | (k, u) :: us, n, done, outer, as, hus, hn => by
    have hlisted : listed (memberTexts ((k, u) :: us)) ++ '\x7d' :: as =
        ',' :: ((quote k ++ ":" ++ text u).toList ++ (listed (memberTexts us) ++ '\x7d' :: as)) := by
      simp [listed, memberTexts]
    rw [hlisted, feed_of_scanOne? (t := .comma) (by decide) rfl, Reading.step?, Option.bind_some,
      feed_member, feed_text u (hus _ List.mem_cons_self) (by rw [List.length_cons]; omega)
        (follows_listed (memberTexts us) (.inr rfl) as), Reading.place,
      feed_members us (fun x hx => hus x (List.mem_cons_of_mem _ hx)) hn, List.reverse_cons, List.append_assoc]
    rfl

end

theorem read?_eq (s : String) :
    read? s = (feed (.value [] false) s.toList).bind fun
      | .finished v => some v
      | _ => none := by
  rw [read?, feed]
  cases scan? s.toList <;> rfl

/-- What can be read is read from its own text. -/
theorem read?_text {v : Json} (h : Readable Reading.maxOpen v) : read? (text v) = some v := by
  have hfeed : feed (.value [] false) ((text v).toList ++ []) = feed (Reading.place v []) [] :=
    feed_text v h (Nat.le_of_eq (Nat.zero_add _)) nofun
  rw [List.append_nil, feed_nil] at hfeed
  rw [read?_eq, hfeed]
  rfl

/-! ## What has been read -/

/-- A scalar that has been scanned is one that can be read. -/
def Token.Sound : Token → Prop
  | .scalar v => Readable 0 v
  | _ => True

theorem readable_of_number? {neg : Bool} {whole : List Char} {fraction : Option (List Char)} {exponent : Option Int}
    {n : Number} (h : number? neg whole fraction exponent = some n) : Readable 0 (.num n) := by
  unfold number? at h
  extract_lets k i at h
  split at h
  · next hint =>
    cases h
    exact .int ⟨hint.2.2.1, hint.2.2.2.1⟩
  · obtain ⟨x, -, rfl⟩ := Option.map_eq_some_iff.1 h
    exact .float x

theorem readable_of_scanNumber? {cs rest : List Char} {n : Number} (h : scanNumber? cs = some (n, rest)) :
    Readable 0 (.num n) := by
  unfold scanNumber? at h
  split at h
  split at h
  split at h
  · cases h
  · obtain ⟨⟨fraction, rest'⟩, -, h⟩ := Option.bind_eq_some_iff.1 h
    obtain ⟨⟨exponent, rest'⟩, -, h⟩ := Option.bind_eq_some_iff.1 h
    obtain ⟨m, hm, h⟩ := Option.bind_eq_some_iff.1 h
    cases h
    exact readable_of_number? hm

theorem sound_of_scanOne? {cs rest : List Char} {t : Token} (h : scanOne? cs = some (t, rest)) : t.Sound := by
  unfold scanOne? at h
  split at h
  case h_1 => cases h
  case h_8 =>
    obtain ⟨_, -, he⟩ := Option.map_eq_some_iff.1 h
    cases he
    trivial
  case h_12 =>
    obtain ⟨⟨n, rest⟩, hn, he⟩ := Option.map_eq_some_iff.1 h
    cases he
    exact readable_of_scanNumber? hn
  all_goals
    cases h
    first
      | trivial
      | exact .null
      | exact .bool _

theorem sound_of_scan? {cs : List Char} {ts : List Token} (h : scan? cs = some ts) : ∀ t ∈ ts, t.Sound := by
  induction cs using scan?.induct generalizing ts with
  | case1 cs hblank =>
    rw [scan?, if_pos hblank] at h
    cases h
    exact List.forall_mem_nil _
  | case2 cs hblank hnone =>
    rw [scan?, if_neg hblank] at h
    split at h
    · cases h
    · next hsome =>
      rw [hnone] at hsome
      cases hsome
  | case3 cs hblank t rest hsome hlt ih =>
    rw [scan?, if_neg hblank] at h
    split at h
    · cases h
    · next t' rest' hsome' =>
      rw [hsome] at hsome'
      cases hsome'
      obtain ⟨ts, hts, rfl⟩ := Option.map_eq_some_iff.1 h
      exact List.forall_mem_cons.2 ⟨sound_of_scanOne? hsome, ih hts⟩

/-- What a container that is open holds so far. -/
def Frame.Sound (n : Nat) : Frame → Prop
  | .items done => ∀ v ∈ done, Readable n v
  | .members done _ => ∀ e ∈ done, Readable n e.2

/-- The containers that are open may be, and what they hold can be read at its depth. -/
def StackSound : List Frame → Prop
  | [] => True
  | f :: outer => outer.length < Reading.maxOpen ∧ f.Sound (Reading.maxOpen - outer.length - 1) ∧ StackSound outer

def Reading.Sound : Reading → Prop
  | .value stack _ => StackSound stack
  | .key done outer _ => StackSound (.members done "" :: outer)
  | .colon k done outer => StackSound (.members done k :: outer)
  | .afterItem done outer => StackSound (.items done :: outer)
  | .afterMember done outer => StackSound (.members done "" :: outer)
  | .finished v => Readable maxOpen v

theorem sound_place {v : Json} {stack : List Frame} (hv : Readable (Reading.maxOpen - stack.length) v)
    (hs : StackSound stack) : (Reading.place v stack).Sound := by
  cases stack with
  | nil => exact hv
  | cons f outer =>
    obtain ⟨hlt, hf, houter⟩ := hs
    rw [List.length_cons, ← Nat.sub_sub] at hv
    cases f with
    | items done => exact ⟨hlt, List.forall_mem_cons.2 ⟨hv, hf⟩, houter⟩
    | members done k => exact ⟨hlt, List.forall_mem_cons.2 ⟨hv, hf⟩, houter⟩

theorem sound_close_items {done : List Json} {outer : List Frame} (h : StackSound (.items done :: outer)) :
    (Reading.place (.arr done.reverse) outer).Sound := by
  obtain ⟨hlt, hdone, houter⟩ := h
  obtain ⟨m, hm⟩ := Nat.exists_eq_add_one_of_ne_zero (Nat.sub_pos_of_lt hlt).ne'
  refine sound_place ?_ houter
  rw [hm]
  exact .arr fun v hv => (hm ▸ hdone v (List.mem_reverse.1 hv) :)

theorem sound_close_members {done : List (String × Json)} {k : String} {outer : List Frame}
    (h : StackSound (.members done k :: outer)) : (Reading.place (.obj (Entries.ofList done.reverse)) outer).Sound := by
  obtain ⟨hlt, hdone, houter⟩ := h
  obtain ⟨m, hm⟩ := Nat.exists_eq_add_one_of_ne_zero (Nat.sub_pos_of_lt hlt).ne'
  refine sound_place ?_ houter
  rw [hm]
  exact .obj (Entries.ordered_ofList _) fun e he => (hm ▸ hdone e (List.mem_reverse.1 (Entries.mem_of_mem_ofList he)) :)

theorem sound_startValue? {stack : List Frame} {t : Token} {r : Reading} (hs : StackSound stack) (ht : t.Sound)
    (h : Reading.startValue? stack t = some r) : r.Sound := by
  cases t with
  | scalar v =>
    cases h
    exact sound_place (Readable.mono ht (Nat.zero_le _)) hs
  | string s =>
    cases h
    exact sound_place (.str s) hs
  | openArray =>
    obtain ⟨hlt, he⟩ := Option.ite_none_right_eq_some.1 h
    cases he
    exact ⟨hlt, List.forall_mem_nil _, hs⟩
  | openObject =>
    obtain ⟨hlt, he⟩ := Option.ite_none_right_eq_some.1 h
    cases he
    exact ⟨hlt, List.forall_mem_nil _, hs⟩
  | _ => cases h

theorem sound_step? {r r' : Reading} {t : Token} (hr : r.Sound) (ht : t.Sound)
    (h : r.step? t = some r') : r'.Sound := by
  unfold Reading.step? at h
  split at h
  case h_2 => exact sound_startValue? hr ht h
  all_goals cases h
  case h_1 => exact sound_close_items hr
  case h_3 => exact @sound_close_members [] "" _ ⟨hr.1, List.forall_mem_nil _, hr.2.2⟩
  case h_7 => exact sound_close_items hr
  case h_9 => exact sound_close_members hr
  all_goals exact hr

theorem sound_foldlM {ts : List Token} {r r' : Reading} (hr : r.Sound) (hts : ∀ t ∈ ts, t.Sound)
    (h : ts.foldlM Reading.step? r = some r') : r'.Sound := by
  induction ts generalizing r with
  | nil =>
    cases h
    exact hr
  | cons t ts ih =>
    obtain ⟨ht, hts⟩ := List.forall_mem_cons.1 hts
    rw [List.foldlM_cons] at h
    obtain ⟨s, hs, h⟩ := Option.bind_eq_some_iff.1 h
    exact ih (sound_step? hr ht hs) hts h

/-- What has been read is what can be read. -/
theorem readable_of_read? {s : String} {v : Json} (h : read? s = some v) : Readable Reading.maxOpen v := by
  obtain ⟨ts, hts, h⟩ := Option.bind_eq_some_iff.1 h
  obtain ⟨r, hr, h⟩ := Option.bind_eq_some_iff.1 h
  have hsound : r.Sound := sound_foldlM (r := .value [] false) trivial (sound_of_scan? hts) hr
  split at h
  · cases h
    exact hsound
  · cases h

/-- The values that there are in texts are those that are read from their own. -/
theorem read?_text_iff {v : Json} : read? (text v) = some v ↔ Readable Reading.maxOpen v :=
  ⟨readable_of_read?, read?_text⟩

end Patchbay.Json
