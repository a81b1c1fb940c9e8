/-!
Finite double-precision numbers, held exactly: a sign and a magnitude counted in units of `2 ^ -1074`,
the smallest positive double. Every operation computes its exact result and rounds it once, to the
nearest double, a tie going to the even neighbour.
-/

namespace Patchbay

/-- The quotient `n / d` rounded to the nearest natural number, a tie going to the even one. -/
def roundQuotient (n d : Nat) : Nat :=
  let q := n / d
  let r := n % d
  if 2 * r < d then q
  else if d < 2 * r then q + 1
  else if q % 2 = 0 then q
  else q + 1

/-- A number of units is a double's magnitude: at most 53 significant bits, and below `2 ^ 1024`,
which is `2 ^ 2098` units. -/
def IsMagnitude (m : Nat) : Prop :=
  Nat.pow 2 (m.log2 - 52) ∣ m ∧ m.log2 < 2098

instance (m : Nat) : Decidable (IsMagnitude m) :=
  inferInstanceAs (Decidable (_ ∧ _))

/-- A finite double: its sign, and its magnitude in units of `2 ^ -1074`. -/
structure Double where
  neg : Bool
  mag : Nat
  isMagnitude : IsMagnitude mag
  deriving DecidableEq

namespace Double

def one : Nat := Nat.pow 2 1074

def zero : Double := ⟨false, 0, Nat.dvd_zero _, by decide⟩

instance : Inhabited Double := ⟨zero⟩

def nearestMagnitude (n d : Nat) : Nat :=
  let step := Nat.pow 2 ((n / d).log2 - 52)
  roundQuotient n (d * step) * step

/-- The double nearest to `n / d` units, or `none` past the largest double. -/
def ofUnits? (neg : Bool) (n d : Nat) : Option Double :=
  if h : IsMagnitude (nearestMagnitude n d) then some ⟨neg, _, h⟩ else none

/-- The double nearest to the ratio `n / d`, or `none` past the largest double. -/
def ofRatio? (neg : Bool) (n d : Nat) : Option Double :=
  ofUnits? neg (n * one) d

/-- The double nearest to an integer, or `none` past the largest double. -/
def ofInt? (i : Int) : Option Double :=
  ofRatio? (decide (i < 0)) i.natAbs 1

def units (x : Double) : Int :=
  if x.neg then -x.mag else x.mag

/-- Numeric equality: both zeros are one number. -/
def same (x y : Double) : Bool :=
  x.units == y.units

def less (x y : Double) : Bool :=
  decide (x.units < y.units)

/-- The nearest double to `x + y`, or `none` past the largest double. A sum of zero is negative only
when both terms are. -/
def add? (x y : Double) : Option Double :=
  let s := x.units + y.units
  ofUnits? (if s = 0 then x.neg && y.neg else decide (s < 0)) s.natAbs 1

def divNat? (x : Double) (d : Nat) : Option Double :=
  ofUnits? x.neg x.mag d

def isIntegral (x : Double) : Bool :=
  x.mag % one == 0

def toInt (x : Double) : Int :=
  let n : Int := (x.mag / one : Nat)
  if x.neg then -n else n

end Double

def minInt64 : Int := -9223372036854775808

def maxInt64 : Int := 9223372036854775807

def maxNat64 : Nat := 18446744073709551615

/-- The nearest signed 64-bit integer to an integer: itself, or the end of the range it lies beyond. -/
def clampInt64 (i : Int) : Int :=
  max minInt64 (min maxInt64 i)

end Patchbay
