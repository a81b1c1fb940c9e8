import Patchbay.Json.Printer
import Patchbay.Json.Token
import Patchbay.Proofs.Number.Nearest
import Mathlib.Data.List.Basic

/-! Numbers as they are written. A double is read back from its text whatever layout it was written in, so that numbers
of one text are one number. -/

namespace Patchbay

namespace Json

/-! ## Digits -/

theorem isDigit_toDigits {n : Nat} : ∀ c ∈ Nat.toDigits 10 n, c.isDigit = true :=
  fun _ hc => Nat.isDigit_of_mem_toDigits (by decide) (by decide) hc

theorem isDigit_zeros (k : Nat) : ∀ c ∈ List.replicate k '0', c.isDigit = true := by
  intro c hc
  rw [List.eq_of_mem_replicate hc]
  decide

namespace Token

theorem digitsValue_eq (ds : List Char) : digitsValue ds = Nat.ofDigitChars 10 ds 0 := by
  have hstep : (fun (n : Nat) (c : Char) => n * 10 + (c.toNat - 48)) = fun n c => 10 * n + (c.toNat - 48) := by
    funext n c
    rw [Nat.mul_comm]
  rw [digitsValue, hstep]
  rfl

theorem digitsValue_toDigits (n : Nat) : digitsValue (Nat.toDigits 10 n) = n := by
  rw [digitsValue_eq, Nat.ofDigitChars_ten_toDigits]

theorem digitsValue_zeros_append (k : Nat) (ds : List Char) :
    digitsValue (List.replicate k '0' ++ ds) = digitsValue ds := by
  rw [digitsValue_eq, digitsValue_eq, Nat.ofDigitChars_append, Nat.ofDigitChars_replicate_zero, Nat.mul_zero]

theorem digitsValue_append_zeros (ds : List Char) (k : Nat) :
    digitsValue (ds ++ List.replicate k '0') = digitsValue ds * 10 ^ k := by
  rw [digitsValue_eq, digitsValue_eq, Nat.ofDigitChars_append, Nat.ofDigitChars_replicate_zero, Nat.mul_comm]

/-- No digit comes next. -/
def NoDigit (cs : List Char) : Prop := ∀ c ∈ cs.head?, c.isDigit = false

theorem noDigit_cons {c : Char} (hc : c.isDigit = false) (cs : List Char) : NoDigit (c :: cs) := by
  rintro _ ⟨⟩
  exact hc

theorem spanDigits_append {ds cs : List Char} (hd : ∀ c ∈ ds, c.isDigit = true) (hcs : NoDigit cs) :
    spanDigits (ds ++ cs) = (ds, cs) := by
  rw [spanDigits, List.takeWhile_append_of_pos hd, List.dropWhile_append_of_pos hd]
  cases cs with
  | nil => simp
  | cons c cs =>
    have hc : ¬c.isDigit = true := by simp [hcs c rfl]
    rw [List.takeWhile_cons_of_neg hc, List.dropWhile_cons_of_neg hc, List.append_nil]

end Token

open Token

/-- What may come next after a value: a comma, a closing bracket, or nothing. -/
def Follows (cs : List Char) : Prop := ∀ c ∈ cs.head?, c = ',' ∨ c = ']' ∨ c = '\x7d'

theorem Follows.noDigit {cs : List Char} (h : Follows cs) : NoDigit cs := by
  intro c hc
  rcases h c hc with rfl | rfl | rfl <;> decide

/-! ## Numerals -/

/-- A number in the parts that it is written in. -/
structure Numeral where
  neg : Bool
  whole : List Char
  fraction : Option (List Char) := none
  exponent : Option Int := none

namespace Numeral

def signChars : Bool → List Char
  | true => ['-']
  | false => []

def fractionChars : Option (List Char) → List Char
  | some ds => '.' :: ds
  | none => []

def exponentChars : Option Int → List Char
  | some e => 'e' :: (if e < 0 then '-' else '+') :: Nat.toDigits 10 e.natAbs
  | none => []

def chars (n : Numeral) : List Char :=
  signChars n.neg ++ (n.whole ++ (fractionChars n.fraction ++ exponentChars n.exponent))

def decimal (n : Numeral) : Decimal :=
  ⟨n.neg, digitsValue (n.whole ++ n.fraction.getD []), n.exponent.getD 0 - (n.fraction.getD []).length⟩

/-- Digits stand where digits are due. -/
structure Proper (n : Numeral) : Prop where
  whole_digits : n.whole ≠ [] ∧ ∀ c ∈ n.whole, c.isDigit = true
  fraction_digits : ∀ ds, n.fraction = some ds → ds ≠ [] ∧ ∀ c ∈ ds, c.isDigit = true

variable {m n : Numeral} {as bs : List Char}

theorem noDigit_exponentChars (e : Option Int) (ha : Follows as) : NoDigit (exponentChars e ++ as) := by
  cases e with
  | none => exact ha.noDigit
  | some e => exact noDigit_cons (by decide) _

theorem noDigit_fractionChars (f : Option (List Char)) (e : Option Int) (ha : Follows as) :
    NoDigit (fractionChars f ++ (exponentChars e ++ as)) := by
  cases f with
  | none => exact noDigit_exponentChars e ha
  | some ds => exact noDigit_cons (by decide) _

theorem scanExponent?_append (e : Option Int) (ha : Follows as) :
    scanExponent? (exponentChars e ++ as) = some (e, as) := by
  cases e with
  | none =>
    cases as with
    | nil => rfl
    | cons c as => rcases ha c rfl with rfl | rfl | rfl <;> simp [exponentChars, scanExponent?]
  | some e =>
    have hspan := spanDigits_append (isDigit_toDigits (n := e.natAbs)) ha.noDigit
    have hne : ¬(Nat.toDigits 10 e.natAbs).isEmpty = true := by simp
    by_cases hneg : e < 0
    · have habs : -(e.natAbs : Int) = e := by omega
      simp only [exponentChars, List.cons_append, scanExponent?, hneg, if_true, true_or, hspan, digitsValue_toDigits,
        if_neg hne, habs]
    · have habs : (e.natAbs : Int) = e := by omega
      simp only [exponentChars, List.cons_append, scanExponent?, hneg, if_true, if_false, true_or, hspan,
        digitsValue_toDigits, if_neg hne, habs, Bool.false_eq_true]

theorem Proper.scanFraction?_append (h : n.Proper) (ha : Follows as) :
    scanFraction? (fractionChars n.fraction ++ (exponentChars n.exponent ++ as)) =
      some (n.fraction, exponentChars n.exponent ++ as) := by
  cases hf : n.fraction with
  | none =>
    cases n.exponent with
    | some e => rfl
    | none =>
      cases as with
      | nil => rfl
      | cons c as => rcases ha c rfl with rfl | rfl | rfl <;> rfl
  | some ds =>
    obtain ⟨hne, hdigits⟩ := h.fraction_digits ds hf
    rw [fractionChars, List.cons_append, scanFraction?,
      spanDigits_append hdigits (noDigit_exponentChars n.exponent ha)]
    exact if_neg (by simpa using hne)

theorem signChars_append_inj {b c : Bool} {ds es : List Char} (hd : ∀ x ∈ ds.head?, x.isDigit = true)
    (he : ∀ x ∈ es.head?, x.isDigit = true) (h : signChars b ++ ds = signChars c ++ es) : b = c ∧ ds = es := by
  cases b <;> cases c
  · exact ⟨rfl, h⟩
  · obtain rfl : ds = '-' :: es := h
    exact absurd (hd '-' rfl) (by decide)
  · obtain rfl : '-' :: ds = es := h
    exact absurd (he '-' rfl) (by decide)
  · exact ⟨rfl, (List.cons.inj h).2⟩

theorem Proper.head?_digit (h : n.Proper) (cs : List Char) : ∀ c ∈ (n.whole ++ cs).head?, c.isDigit = true := by
  intro c hc
  rw [List.head?_append_of_ne_nil _ h.whole_digits.1] at hc
  exact h.whole_digits.2 c (List.mem_of_mem_head? hc)

theorem Proper.head?_chars (h : n.Proper) : ∃ c, n.chars.head? = some c ∧ (c.isDigit = true ∨ c = '-') := by
  rw [chars]
  cases n.neg with
  | true => exact ⟨'-', rfl, .inr rfl⟩
  | false =>
    obtain ⟨c, ds, hds⟩ := List.exists_cons_of_ne_nil h.whole_digits.1
    refine ⟨c, ?_, .inl (h.whole_digits.2 c (hds ▸ List.mem_cons_self))⟩
    rw [hds]
    rfl

/-- A numeral ends where it ends, and its parts are where they are. -/
theorem Proper.chars_append_inj (hm : m.Proper) (hn : n.Proper) (ha : Follows as) (hb : Follows bs)
    (h : m.chars ++ as = n.chars ++ bs) : m = n ∧ as = bs := by
  simp only [chars, List.append_assoc] at h
  obtain ⟨hneg, h⟩ := signChars_append_inj (hm.head?_digit _) (hn.head?_digit _) h
  have hwhole := congrArg spanDigits h
  rw [spanDigits_append hm.whole_digits.2 (noDigit_fractionChars _ _ ha),
    spanDigits_append hn.whole_digits.2 (noDigit_fractionChars _ _ hb)] at hwhole
  obtain ⟨hwhole, h⟩ := Prod.mk.inj hwhole
  have hfraction := congrArg scanFraction? h
  rw [hm.scanFraction?_append ha, hn.scanFraction?_append hb] at hfraction
  obtain ⟨hfraction, h⟩ := Prod.mk.inj (Option.some.inj hfraction)
  have hexponent := congrArg scanExponent? h
  rw [scanExponent?_append _ ha, scanExponent?_append _ hb] at hexponent
  obtain ⟨hexponent, h⟩ := Prod.mk.inj (Option.some.inj hexponent)
  refine ⟨?_, h⟩
  cases m
  cases n
  simp_all

end Numeral

end Json

/-! ## Doubles -/

namespace DecimalLayout

open Json Json.Token

/-- The numeral of a decimal: one digit in front of the point and an exponent, zeros between the point and the digits,
or the point among the digits or behind them. -/
def numeral (l : DecimalLayout) (x : Decimal) : Numeral :=
  let digits := Nat.toDigits 10 x.coeff
  let e := x.exp + digits.length - 1
  if e < l.leastPlain ∨ l.greatestPlain < e then
    { neg := x.neg
      whole := digits.take 1
      fraction := if (digits.drop 1).isEmpty then none else some (digits.drop 1)
      exponent := some e }
  else if e < 0 then
    { neg := x.neg, whole := ['0'], fraction := some (List.replicate (-e - 1).toNat '0' ++ digits) }
  else
    let n := e.toNat + 1
    { neg := x.neg
      whole := digits.take n ++ List.replicate (n - digits.length) '0'
      fraction := some (if (digits.drop n).isEmpty then ['0'] else digits.drop n) }

theorem text_eq (l : DecimalLayout) (x : Decimal) : (l.text x).toList = (l.numeral x).chars := by
  have hsign (body : List Char) : (if x.neg = true then '-' :: body else body) = Numeral.signChars x.neg ++ body := by
    cases x.neg <;> rfl
  have hfraction (ds : List Char) : (if ds.isEmpty = true then [] else '.' :: ds) =
      Numeral.fractionChars (if ds.isEmpty then none else some ds) := by
    cases ds <;> rfl
  simp only [text, numeral, String.toList_ofList, Nat.toList_repr, hsign, hfraction]
  split
  · simp only [Numeral.chars, Numeral.exponentChars, List.append_assoc]
  split
  · simp only [Numeral.chars, Numeral.fractionChars, Numeral.exponentChars, List.append_nil, List.cons_append,
      List.nil_append]
  · simp only [Numeral.chars, Numeral.fractionChars, Numeral.exponentChars, List.append_nil]

theorem proper_numeral (l : DecimalLayout) (x : Decimal) : (l.numeral x).Proper := by
  have hdigits := @isDigit_toDigits x.coeff
  have hne : Nat.toDigits 10 x.coeff ≠ [] := Nat.toDigits_ne_nil
  simp only [numeral]
  generalize Nat.toDigits 10 x.coeff = digits at *
  have htake (n : Nat) : digits.take (n + 1) ≠ [] :=
    fun h => hne ((List.take_eq_nil_iff.1 h).resolve_left (Nat.succ_ne_zero n))
  have hdrop (n : Nat) : ∀ c ∈ digits.drop n, c.isDigit = true := fun c hc => hdigits c (List.mem_of_mem_drop hc)
  split
  · refine ⟨⟨htake 0, fun c hc => hdigits c (List.mem_of_mem_take hc)⟩, fun ds hds => ?_⟩
    split at hds
    · cases hds
    next hpart =>
    cases hds
    exact ⟨fun h => hpart (List.isEmpty_iff.2 h), hdrop 1⟩
  split
  · refine ⟨⟨List.cons_ne_nil _ _, isDigit_zeros 1⟩, fun ds hds => ?_⟩
    cases hds
    exact ⟨List.append_ne_nil_of_right_ne_nil _ hne, List.forall_mem_append.2 ⟨isDigit_zeros _, hdigits⟩⟩
  · refine ⟨⟨List.append_ne_nil_of_left_ne_nil (htake _) _,
      List.forall_mem_append.2 ⟨fun c hc => hdigits c (List.mem_of_mem_take hc), isDigit_zeros _⟩⟩, fun ds hds => ?_⟩
    cases hds
    split
    · exact ⟨List.cons_ne_nil _ _, isDigit_zeros 1⟩
    · next hpart => exact ⟨fun h => hpart (List.isEmpty_iff.2 h), hdrop _⟩

/-- The digits are those of the decimal, and as many zeros as the exponent has fewer. -/
theorem decimal_numeral (l : DecimalLayout) (x : Decimal) :
    ∃ k : Nat, (l.numeral x).decimal = ⟨x.neg, x.coeff * 10 ^ k, x.exp - k⟩ := by
  have hvalue := digitsValue_toDigits x.coeff
  have hpos : 0 < (Nat.toDigits 10 x.coeff).length := Nat.length_toDigits_pos
  simp only [numeral]
  generalize Nat.toDigits 10 x.coeff = digits at *
  split
  · refine ⟨0, ?_⟩
    have hpart : (if (digits.drop 1).isEmpty then none else some (digits.drop 1)).getD [] = digits.drop 1 := by
      split
      · next h => exact (List.isEmpty_iff.1 h).symm
      · rfl
    simp only [Numeral.decimal, hpart, Option.getD_some, List.take_append_drop, hvalue, List.length_drop, Nat.pow_zero,
      Nat.mul_one]
    congr 1
    omega
  split
  · refine ⟨0, ?_⟩
    have hzeros := digitsValue_zeros_append ((-(x.exp + digits.length - 1) - 1).toNat + 1) digits
    rw [List.replicate_succ, List.cons_append, hvalue] at hzeros
    simp only [Numeral.decimal, Option.getD_some, Option.getD_none, List.singleton_append, hzeros, Nat.pow_zero,
      Nat.mul_one, List.length_append, List.length_replicate]
    congr 1
    omega
  generalize hn : (x.exp + digits.length - 1).toNat + 1 = n
  by_cases hlen : digits.length ≤ n
  · refine ⟨n - digits.length + 1, ?_⟩
    rw [List.take_of_length_le hlen, List.drop_of_length_le hlen]
    have hzeros := digitsValue_append_zeros digits (n - digits.length + 1)
    rw [List.replicate_succ', ← List.append_assoc, hvalue] at hzeros
    simp only [Numeral.decimal, List.isEmpty_nil, if_true, Option.getD_some, Option.getD_none, hzeros,
      List.length_singleton]
    congr 1
    omega
  · refine ⟨0, ?_⟩
    have hpart : ¬(digits.drop n).isEmpty = true := by simpa using hlen
    rw [Nat.sub_eq_zero_of_le (by omega), List.replicate_zero, List.append_nil]
    simp only [Numeral.decimal, if_neg hpart, Option.getD_some, Option.getD_none, List.take_append_drop, hvalue,
      List.length_drop, Nat.pow_zero, Nat.mul_one]
    congr 1
    omega

theorem isSome_numeral (l : DecimalLayout) (x : Decimal) :
    (l.numeral x).fraction.isSome = true ∨ (l.numeral x).exponent.isSome = true := by
  simp only [numeral]
  split
  · exact .inr rfl
  split <;> exact .inl rfl

end DecimalLayout

namespace Json

/-! ## Numbers of one text -/

def intNumeral (i : Int) : Numeral := { neg := decide (i < 0), whole := Nat.toDigits 10 i.natAbs }

def numeral : Number → Numeral
  | .int i => intNumeral i
  | .float x => decimalLayout.numeral x.shortest

theorem toList_numberText (n : Number) : (numberText n).toList = (numeral n).chars := by
  cases n with
  | float x => exact decimalLayout.text_eq x.shortest
  | int i =>
    simp only [numberText, Int.toString_eq_repr, Int.repr_eq_if, numeral, intNumeral, Numeral.chars,
      Numeral.fractionChars, Numeral.exponentChars, List.append_nil]
    split
    · next hi =>
      have habs : i.toNat = i.natAbs := by omega
      rw [decide_eq_false (by omega), Nat.toList_repr, habs]
      rfl
    · next hi =>
      have habs : (-i).toNat = i.natAbs := by omega
      rw [decide_eq_true (by omega), String.toList_append, Nat.toList_repr, habs]
      rfl

theorem proper_numeral (n : Number) : (numeral n).Proper := by
  cases n with
  | float x => exact decimalLayout.proper_numeral x.shortest
  | int i => exact ⟨⟨Nat.toDigits_ne_nil, isDigit_toDigits⟩, nofun⟩

theorem toDouble?_decimal_numeral (x : Double) : (decimalLayout.numeral x.shortest).decimal.toDouble? = some x := by
  obtain ⟨k, hk⟩ := decimalLayout.decimal_numeral x.shortest
  rw [hk, Decimal.toDouble?_mul_pow_ten, x.toDouble?_shortest]

theorem intNumeral_injective {i j : Int} (h : intNumeral i = intNumeral j) : i = j := by
  have hneg : decide (i < 0) = decide (j < 0) := congrArg Numeral.neg h
  have habs := congrArg (fun n => Token.digitsValue n.whole) h
  simp only [intNumeral, Token.digitsValue_toDigits] at habs
  rw [decide_eq_decide] at hneg
  omega

/-- An integer is written without a point and without an exponent, and a double is not. -/
theorem intNumeral_ne_numeral (i : Int) (l : DecimalLayout) (x : Decimal) : intNumeral i ≠ l.numeral x := by
  intro h
  rcases l.isSome_numeral x with hsome | hsome <;> rw [← h] at hsome <;> cases hsome

theorem numeral_injective {m n : Number} (h : numeral m = numeral n) : m = n := by
  cases m with
  | int i =>
    cases n with
    | int j => rw [intNumeral_injective h]
    | float y => exact absurd h (intNumeral_ne_numeral i _ _)
  | float x =>
    cases n with
    | int j => exact absurd h.symm (intNumeral_ne_numeral j _ _)
    | float y =>
      have hx := toDouble?_decimal_numeral x
      rw [show decimalLayout.numeral x.shortest = decimalLayout.numeral y.shortest from h,
        toDouble?_decimal_numeral] at hx
      rw [Option.some.inj hx]

/-- The text of a number tells which number it is, and where it ends. -/
theorem numberText_append_inj {m n : Number} {as bs : List Char} (ha : Follows as) (hb : Follows bs)
    (h : (numberText m).toList ++ as = (numberText n).toList ++ bs) : m = n ∧ as = bs := by
  rw [toList_numberText, toList_numberText] at h
  obtain ⟨hnumeral, h⟩ := (proper_numeral m).chars_append_inj (proper_numeral n) ha hb h
  exact ⟨numeral_injective hnumeral, h⟩

end Json

end Patchbay
