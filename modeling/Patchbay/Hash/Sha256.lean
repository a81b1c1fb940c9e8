/-!
The hash SHA-256: a message is padded to whole blocks of sixteen words, and each block is compressed into a
state of eight words.
-/

namespace Patchbay.Sha256

abbrev Word := UInt32

/-! ## Words -/

def rotate (x n : Word) : Word := (x >>> n) ||| (x <<< (32 - n))

/-- The words of a message, each from four bytes with the most significant first. Bytes that do not make up
a whole word are passed over. -/
def words : List UInt8 → List Word
  | a :: b :: c :: d :: rest =>
    ((a.toUInt32 <<< 24) ||| (b.toUInt32 <<< 16) ||| (c.toUInt32 <<< 8) ||| d.toUInt32) :: words rest
  | _ => []

def bytesOf (n value : Nat) : List UInt8 :=
  ((List.range n).map fun i => UInt8.ofNat (value / Nat.pow 256 i)).reverse

/-- A message with the byte 128, zeros and its length in bits, which makes whole blocks. -/
def pad (message : List UInt8) : List UInt8 :=
  let n := message.length
  message ++ 0x80 :: List.replicate ((119 - n % 64) % 64) 0 ++ bytesOf 8 (8 * n)

/-! ## Blocks -/

/-- The first thirty-two bits of the fractional parts of the cube roots of the first sixty-four primes. -/
def roundConstants : List Word := [
  0x428a2f98, 0x71374491, 0xb5c0fbcf, 0xe9b5dba5, 0x3956c25b, 0x59f111f1, 0x923f82a4, 0xab1c5ed5,
  0xd807aa98, 0x12835b01, 0x243185be, 0x550c7dc3, 0x72be5d74, 0x80deb1fe, 0x9bdc06a7, 0xc19bf174,
  0xe49b69c1, 0xefbe4786, 0x0fc19dc6, 0x240ca1cc, 0x2de92c6f, 0x4a7484aa, 0x5cb0a9dc, 0x76f988da,
  0x983e5152, 0xa831c66d, 0xb00327c8, 0xbf597fc7, 0xc6e00bf3, 0xd5a79147, 0x06ca6351, 0x14292967,
  0x27b70a85, 0x2e1b2138, 0x4d2c6dfc, 0x53380d13, 0x650a7354, 0x766a0abb, 0x81c2c92e, 0x92722c85,
  0xa2bfe8a1, 0xa81a664b, 0xc24b8b70, 0xc76c51a3, 0xd192e819, 0xd6990624, 0xf40e3585, 0x106aa070,
  0x19a4c116, 0x1e376c08, 0x2748774c, 0x34b0bcb5, 0x391c0cb3, 0x4ed8aa4a, 0x5b9cca4f, 0x682e6ff3,
  0x748f82ee, 0x78a5636f, 0x84c87814, 0x8cc70208, 0x90befffa, 0xa4506ceb, 0xbef9a3f7, 0xc67178f2]

structure State where
  a : Word
  b : Word
  c : Word
  d : Word
  e : Word
  f : Word
  g : Word
  h : Word
  deriving DecidableEq

/-- The first thirty-two bits of the fractional parts of the square roots of the first eight primes. -/
def State.start : State where
  a := 0x6a09e667
  b := 0xbb67ae85
  c := 0x3c6ef372
  d := 0xa54ff53a
  e := 0x510e527f
  f := 0x9b05688c
  g := 0x1f83d9ab
  h := 0x5be0cd19

/-- Extends a schedule of `t` words, `t` at least sixteen, by the next. -/
def extend (w : Array Word) (t : Nat) : Array Word :=
  let back (k : Nat) : Word := w.getD (t - k) 0
  let s0 := rotate (back 15) 7 ^^^ rotate (back 15) 18 ^^^ (back 15 >>> 3)
  let s1 := rotate (back 2) 17 ^^^ rotate (back 2) 19 ^^^ (back 2 >>> 10)
  w.push (back 16 + s0 + back 7 + s1)

def schedule (block : List Word) : List Word :=
  ((List.range' 16 48).foldl extend block.toArray).toList

def round (s : State) (x : Word × Word) : State :=
  let s1 := rotate s.e 6 ^^^ rotate s.e 11 ^^^ rotate s.e 25
  let choice := (s.e &&& s.f) ^^^ (~~~ s.e &&& s.g)
  let t1 := s.h + s1 + choice + x.2 + x.1
  let s0 := rotate s.a 2 ^^^ rotate s.a 13 ^^^ rotate s.a 22
  let majority := (s.a &&& s.b) ^^^ (s.a &&& s.c) ^^^ (s.b &&& s.c)
  { a := t1 + (s0 + majority), b := s.a, c := s.b, d := s.c, e := s.d + t1, f := s.e, g := s.f, h := s.g }

def compress (s : State) (block : List Word) : State :=
  let t := ((schedule block).zip roundConstants).foldl round s
  { a := s.a + t.a, b := s.b + t.b, c := s.c + t.c, d := s.d + t.d
    e := s.e + t.e, f := s.f + t.f, g := s.g + t.g, h := s.h + t.h }

def compressAll (s : State) : List Word → State
  | [] => s
  | w :: rest => compressAll (compress s (w :: rest.take 15)) (rest.drop 15)
termination_by ws => ws.length
decreasing_by
  simp only [List.length_drop, List.length_cons]
  omega

/-! ## Digests -/

def hexWord (w : Word) : List Char :=
  ((List.range 8).map fun i => Nat.digitChar (w.toNat / Nat.pow 16 i % 16)).reverse

def hexDigest (message : List UInt8) : List Char :=
  let s := compressAll .start (words (pad message))
  [s.a, s.b, s.c, s.d, s.e, s.f, s.g, s.h].flatMap hexWord

/-- A digest holds hexadecimal digits only. -/
theorem not_mem_hexDigest {c : Char} (hc : ∀ d < 16, Nat.digitChar d ≠ c) {message : List UInt8} :
    c ∉ hexDigest message := by
  intro h
  obtain ⟨w, -, h⟩ := List.mem_flatMap.1 h
  obtain ⟨i, -, h⟩ := List.mem_map.1 (List.mem_reverse.1 h)
  exact hc _ (Nat.mod_lt _ (by decide)) h

end Patchbay.Sha256
