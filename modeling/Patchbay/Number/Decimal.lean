import Patchbay.Number.Double

/-!
Decimal numbers `coeff * 10 ^ exp`, the double nearest to one, and the shortest decimal that reads back
as a given double.
-/

namespace Patchbay

/-- The decimal number `coeff * 10 ^ exp`, with a sign. -/
structure Decimal where
  neg : Bool
  coeff : Nat
  exp : Int
  deriving DecidableEq

/-- The number of decimal digits of a natural number; zero has one. -/
def digitCount (n : Nat) : Nat :=
  (Nat.repr n).length

namespace Decimal

/-- The double nearest to a decimal, or `none` past the largest double. A decimal whose leading digit
stands beyond `10 ^ 310` is past the range, and one below `10 ^ -330` rounds to zero. -/
def toDouble? (x : Decimal) : Option Double :=
  let lead := x.exp + digitCount x.coeff
  if x.coeff = 0 ∨ lead < -330 then Double.ofUnits? x.neg 0 1
  else if 310 < lead then none
  else if 0 ≤ x.exp then Double.ofRatio? x.neg (x.coeff * Nat.pow 10 x.exp.toNat) 1
  else Double.ofRatio? x.neg x.coeff (Nat.pow 10 (-x.exp).toNat)

end Decimal

namespace Double

def exactDecimal (x : Double) : Decimal :=
  ⟨x.neg, x.mag * Nat.pow 5 1074, -1074⟩

def reaches (x : Double) (k : Int) : Bool :=
  one * Nat.pow 10 k.toNat ≤ x.mag * Nat.pow 10 (-k).toNat

/-- The exponent of the leading decimal digit of a double that is not zero. The leading binary digit leaves
two exponents to choose from: a power of two has 0.30103 decimal digits for each binary one, rounded down. -/
def leadExponent (x : Double) : Int :=
  let least := ((x.mag.log2 : Int) - 1074) * 30103 / 100000
  if x.reaches (least + 1) then least + 1 else least

end Double

/-- A positive number counted in some unit, `whole + part / den` of them, and what rounds to it: of the
natural numbers of units, those from `least` to `greatest`. -/
structure RoundingSpan where
  whole : Nat
  part : Nat
  den : Nat
  least : Nat
  greatest : Nat

namespace RoundingSpan

/-- The coefficient of a decimal that rounds to the number, with steps of `grid` units: one of the two
neighbours of the number on that grid, if any. The nearer one is taken where both do, and on a tie the even
one. -/
def coeffOn? (s : RoundingSpan) (grid : Nat) : Option Nat :=
  let low := s.whole / grid
  if s.least ≤ low * grid then
    if (low + 1) * grid ≤ s.greatest then
      let down := s.whole % grid * s.den + s.part
      let up := grid * s.den - down
      if down < up ∨ down = up ∧ low % 2 = 0 then some low else some (low + 1)
    else some low
  else if (low + 1) * grid ≤ s.greatest then some (low + 1)
  else none

/-- The grids on which a shortest decimal is looked for, by the number of digits that they drop, the coarsest
first. -/
def grids : List (Nat × Nat) :=
  (List.range 18).reverse.map fun drop => (drop, Nat.pow 10 drop)

/-- The coefficient on the coarsest grid that has one, and the number of digits that this grid drops. The
coefficient does not end in zero, for then a coarser grid would have one. -/
def coarsest? (s : RoundingSpan) : Option (Nat × Nat) :=
  grids.findSome? fun (drop, grid) => (s.coeffOn? grid).map fun c => (c, drop)

end RoundingSpan

namespace Double

/-- A double that is not zero, in units of `10 ^ k`, and what rounds to it. Its neighbours are as far away as
its last binary digit counts, the one below a power of two half as far; a number half way to a neighbour
rounds to the double with the even last digit. -/
def roundingSpan (x : Double) (k : Int) : RoundingSpan :=
  let shift := x.mag.log2 - 52
  let m := x.mag >>> shift
  let e : Int := shift - 1076
  let scale := Nat.pow 2 e.toNat * Nat.pow 10 (-k).toNat
  let den := Nat.pow 2 (-e).toNat * Nat.pow 10 k.toNat
  let quarters := 4 * m
  let below := if shift ≠ 0 ∧ m = Nat.pow 2 52 then 1 else 2
  let low := (quarters - below) * scale
  let high := (quarters + 2) * scale
  { whole := quarters * scale / den
    part := quarters * scale % den
    den
    least := if m % 2 = 0 then (low + den - 1) / den else low / den + 1
    greatest := if m % 2 = 0 then high / den else (high + den - 1) / den - 1 }

/-- The shortest decimal that reads back as `x`. Seventeen digits always suffice; the exact value stands in
for a decimal that would not read back. -/
def shortest (x : Double) : Decimal :=
  if x.mag = 0 then ⟨x.neg, 0, 0⟩
  else
    let k := x.leadExponent - 16
    match (x.roundingSpan k).coarsest? with
    | some (c, drop) =>
      let y : Decimal := ⟨x.neg, c, k + drop⟩
      if y.toDouble? = some x then y else x.exactDecimal
    | none => x.exactDecimal

end Double

end Patchbay
