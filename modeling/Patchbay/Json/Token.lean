import Patchbay.Json.Basic
import Patchbay.Number.Decimal

/-!
The tokens of a JSON text. Each scanner takes the characters of one token off the front and answers with
the characters that follow; `Token.scan?` is total because each scanner leaves fewer than it was given.
-/

namespace Patchbay.Json

/-- A token: a bracket, a separator, a string, or another scalar. -/
inductive Token where
  | openArray
  | closeArray
  | openObject
  | closeObject
  | comma
  | colon
  | string (s : String)
  | scalar (v : Json)

namespace Token

def hexValue? (c : Char) : Option Nat :=
  if '0' ≤ c ∧ c ≤ '9' then some (c.toNat - 48)
  else if 'a' ≤ c ∧ c ≤ 'f' then some (c.toNat - 87)
  else if 'A' ≤ c ∧ c ≤ 'F' then some (c.toNat - 55)
  else none

def hexWord? (a b c d : Char) : Option Nat := do
  let a ← hexValue? a
  let b ← hexValue? b
  let c ← hexValue? c
  let d ← hexValue? d
  return ((a * 16 + b) * 16 + c) * 16 + d

def escaped? (c : Char) : Option Char :=
  match c with
  | '"' => some '"'
  | '\\' => some '\\'
  | '/' => some '/'
  | 'b' => some '\x08'
  | 'f' => some '\x0c'
  | 'n' => some '\n'
  | 'r' => some '\r'
  | 't' => some '\t'
  | _ => none

/-- Reads a string up to and with its closing quote. Control characters must be escaped, and a leading
surrogate must be followed by a trailing one. -/
def scanString? : List Char → Option (List Char × List Char)
  | [] => none
  | '"' :: rest => some ([], rest)
  | '\\' :: 'u' :: a :: b :: c :: d :: '\\' :: 'u' :: e :: f :: g :: h :: rest => do
    let hi ← hexWord? a b c d
    if 0xD800 ≤ hi ∧ hi < 0xDC00 then
      let lo ← hexWord? e f g h
      if 0xDC00 ≤ lo ∧ lo < 0xE000 then
        let (s, rest) ← scanString? rest
        return (Char.ofNat (0x10000 + (hi - 0xD800) * 0x400 + (lo - 0xDC00)) :: s, rest)
      else none
    else if 0xDC00 ≤ hi ∧ hi < 0xE000 then none
    else
      let (s, rest) ← scanString? ('\\' :: 'u' :: e :: f :: g :: h :: rest)
      return (Char.ofNat hi :: s, rest)
  | '\\' :: 'u' :: a :: b :: c :: d :: rest => do
    let n ← hexWord? a b c d
    if 0xD800 ≤ n ∧ n < 0xE000 then none
    else
      let (s, rest) ← scanString? rest
      return (Char.ofNat n :: s, rest)
  | '\\' :: c :: rest => do
    let c ← escaped? c
    let (s, rest) ← scanString? rest
    return (c :: s, rest)
  | c :: rest =>
    if c.toNat < 32 then none
    else do
      let (s, rest) ← scanString? rest
      return (c :: s, rest)

def spanDigits (cs : List Char) : List Char × List Char :=
  (cs.takeWhile Char.isDigit, cs.dropWhile Char.isDigit)

def digitsValue (ds : List Char) : Nat :=
  ds.foldl (fun n c => n * 10 + (c.toNat - 48)) 0

def scanFraction? (cs : List Char) : Option (Option (List Char) × List Char) :=
  match cs with
  | '.' :: rest =>
    let (ds, rest) := spanDigits rest
    if ds.isEmpty then none else some (some ds, rest)
  | _ => some (none, cs)

def scanExponent? (cs : List Char) : Option (Option Int × List Char) :=
  match cs with
  | c :: rest =>
    if c = 'e' ∨ c = 'E' then
      let (neg, rest) := match rest with
        | '+' :: r => (false, r)
        | '-' :: r => (true, r)
        | r => (false, r)
      let (ds, rest) := spanDigits rest
      if ds.isEmpty then none
      else
        let n : Int := digitsValue ds
        some (some (if neg then -n else n), rest)
    else some (none, cs)
  | [] => some (none, [])

/-- The number that a sign, digits, fraction digits and an exponent write. Whole numbers in the 64-bit
ranges are integers, the negative zero excepted; all others are the nearest double, if there is one. -/
def number? (neg : Bool) (whole : List Char) (fraction : Option (List Char)) (exponent : Option Int) :
    Option Number :=
  let n := digitsValue whole
  let i : Int := if neg then -n else n
  if fraction.isNone ∧ exponent.isNone ∧ minInt64 ≤ i ∧ i ≤ maxNat64 ∧ ¬(neg ∧ n = 0) then
    some (.int i)
  else
    let ds := fraction.getD []
    let x : Decimal := ⟨neg, digitsValue (whole ++ ds), exponent.getD 0 - ds.length⟩
    x.toDouble?.map .float

/-- Reads a number. A whole part of more than one digit does not start with zero. -/
def scanNumber? (cs : List Char) : Option (Number × List Char) := do
  let (neg, cs) := match cs with
    | '-' :: r => (true, r)
    | r => (false, r)
  let (whole, rest) := spanDigits cs
  if whole.isEmpty ∨ (whole.head? = some '0' ∧ 1 < whole.length) then none
  else
    let (fraction, rest) ← scanFraction? rest
    let (exponent, rest) ← scanExponent? rest
    let n ← number? neg whole fraction exponent
    return (n, rest)

def scanOne? : List Char → Option (Token × List Char)
  | [] => none
  | '[' :: rest => some (.openArray, rest)
  | ']' :: rest => some (.closeArray, rest)
  | '\x7b' :: rest => some (.openObject, rest)
  | '\x7d' :: rest => some (.closeObject, rest)
  | ',' :: rest => some (.comma, rest)
  | ':' :: rest => some (.colon, rest)
  | '"' :: rest => (scanString? rest).map fun (s, rest) => (.string (String.ofList s), rest)
  | 'n' :: 'u' :: 'l' :: 'l' :: rest => some (.scalar .null, rest)
  | 't' :: 'r' :: 'u' :: 'e' :: rest => some (.scalar (.bool true), rest)
  | 'f' :: 'a' :: 'l' :: 's' :: 'e' :: rest => some (.scalar (.bool false), rest)
  | cs => (scanNumber? cs).map fun (n, rest) => (.scalar (.num n), rest)

def isBlank (c : Char) : Bool :=
  c = ' ' || c = '\n' || c = '\t' || c = '\r'

theorem length_of_scanString? {cs s rest : List Char} (h : scanString? cs = some (s, rest)) :
    rest.length < cs.length := by
  fun_induction scanString? cs generalizing s rest <;>
    simp_all [bind, Option.bind, pure] <;> grind

theorem length_dropWhile_le (p : Char → Bool) (cs : List Char) :
    (cs.dropWhile p).length ≤ cs.length :=
  (List.dropWhile_sublist p).length_le

theorem length_of_scanFraction? {cs rest : List Char} {f : Option (List Char)}
    (h : scanFraction? cs = some (f, rest)) : rest.length ≤ cs.length := by
  have := length_dropWhile_le Char.isDigit
  unfold scanFraction? spanDigits at h
  grind

theorem length_of_scanExponent? {cs rest : List Char} {e : Option Int}
    (h : scanExponent? cs = some (e, rest)) : rest.length ≤ cs.length := by
  have := length_dropWhile_le Char.isDigit
  unfold scanExponent? spanDigits at h
  grind

theorem length_dropWhile_lt {p : Char → Bool} {cs : List Char} (h : cs.takeWhile p ≠ []) :
    (cs.dropWhile p).length < cs.length := by
  have := congrArg List.length (List.takeWhile_append_dropWhile (p := p) (l := cs))
  have := List.length_pos_iff.2 h
  simp only [List.length_append] at *
  omega

theorem length_of_scanNumber? {cs rest : List Char} {n : Number}
    (h : scanNumber? cs = some (n, rest)) : rest.length < cs.length := by
  have hw := @length_dropWhile_lt Char.isDigit
  have hf := @length_of_scanFraction?
  have he := @length_of_scanExponent?
  simp only [scanNumber?, spanDigits, bind, Option.bind, pure] at h
  grind

theorem length_of_scanOne? {cs rest : List Char} {t : Token}
    (h : scanOne? cs = some (t, rest)) : rest.length < cs.length := by
  unfold scanOne? at h
  split at h
  case h_8 r =>
    obtain ⟨p, hp, hq⟩ := Option.map_eq_some_iff.1 h
    have := length_of_scanString? hp
    simp only [Prod.mk.injEq] at hq
    simp only [List.length_cons, ← hq.2]
    omega
  case h_12 =>
    obtain ⟨p, hp, hq⟩ := Option.map_eq_some_iff.1 h
    simp only [Prod.mk.injEq] at hq
    exact hq.2 ▸ length_of_scanNumber? hp
  all_goals simp_all <;> omega

def scan? (cs : List Char) : Option (List Token) :=
  if cs.all isBlank then some []
  else
    match h : scanOne? (cs.dropWhile isBlank) with
    | none => none
    | some (t, rest) =>
      have := Nat.lt_of_lt_of_le (length_of_scanOne? h) (length_dropWhile_le isBlank cs)
      (scan? rest).map (t :: ·)
termination_by cs.length

end Token

end Patchbay.Json
