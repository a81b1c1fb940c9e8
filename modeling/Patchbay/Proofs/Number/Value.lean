import Patchbay.Json.Basic
import Patchbay.Proofs.Number.Rounding
import Mathlib.Algebra.Order.Field.Rat
import Mathlib.Algebra.Order.Field.Basic

/-! What numbers stand for. Taken as doubles they keep their order, though numbers that differ may become one; counts
below `2 ^ 53` are told apart from every number that is greater. -/

namespace Patchbay

namespace Double

theorem rounded_units (x : Double) : rounded x.units = x.units := by
  have hmag : nearestMagnitude x.mag 1 = x.mag := nearestMagnitude_of_isMagnitude x.isMagnitude
  unfold rounded units
  split_ifs with hneg hlt hlt
  · rw [Int.natAbs_neg, Int.natAbs_natCast, hmag]
  · rw [Int.natAbs_neg, Int.natAbs_natCast, hmag]
    omega
  · omega
  · rw [Int.natAbs_natCast, hmag]

theorem rounded_mul_one (i : Int) : rounded (i * one) = rounded i * one := by
  have hone : (0 : Int) < one := Int.natCast_pos.2 one_pos
  have hmag : nearestMagnitude (i * one).natAbs 1 = nearestMagnitude i.natAbs 1 * one := by
    rw [Int.natAbs_mul, Int.natAbs_natCast, nearestMagnitude_mul_one]
  unfold rounded
  by_cases hi : i < 0
  · rw [if_pos hi, if_pos (Int.mul_neg_of_neg_of_pos hi hone), hmag, Int.natCast_mul, Int.neg_mul]
  · rw [if_neg hi, if_neg (not_lt.2 (Int.mul_nonneg (not_lt.1 hi) hone.le)), hmag, Int.natCast_mul]

end Double

namespace Number

variable {m n : Number} {x y : Double} {k : Nat}

/-- A number counted in units, exactly. -/
def units : Number → Int
  | .int i => i * Double.one
  | .float x => x.units

/-- The number that is meant. -/
def value (n : Number) : ℚ := n.units / Double.one

theorem units_eq_rounded (h : n.toDouble? = some x) : x.units = Double.rounded n.units := by
  cases n with
  | int i => rw [units, Double.rounded_mul_one, Double.units_of_ofInt? h]
  | float y =>
    cases h
    exact (Double.rounded_units x).symm

theorem one_pos : (0 : ℚ) < Double.one := Nat.cast_pos.2 Double.one_pos

theorem value_le_value_iff : m.value ≤ n.value ↔ m.units ≤ n.units := by
  rw [value, value, div_le_div_iff_of_pos_right one_pos, Int.cast_le]

theorem value_lt_value_iff : m.value < n.value ↔ m.units < n.units := by
  rw [value, value, div_lt_div_iff_of_pos_right one_pos, Int.cast_lt]

theorem value_int (i : Int) : (Number.int i).value = i := by
  rw [value, units, Int.cast_mul, Int.cast_natCast, mul_div_cancel_right₀ _ one_pos.ne']

/-- Numbers keep their order as doubles. -/
theorem units_le_of_value_le (hm : m.toDouble? = some x) (hn : n.toDouble? = some y) (h : m.value ≤ n.value) :
    x.units ≤ y.units := by
  rw [units_eq_rounded hm, units_eq_rounded hn]
  exact Double.rounded_mono (value_le_value_iff.1 h)

theorem value_lt_of_units_lt (hm : m.toDouble? = some x) (hn : n.toDouble? = some y) (h : x.units < y.units) :
    m.value < n.value := by
  by_contra hle
  exact absurd (units_le_of_value_le hn hm (not_lt.1 hle)) (not_le.2 h)

theorem units_nonneg (hn : n.toDouble? = some x) (h : 0 ≤ n.value) : 0 ≤ x.units := by
  have hunits : (Number.float .zero).units = 0 := rfl
  have hzero : (Number.float .zero).value = 0 := by rw [value, hunits, Int.cast_zero, zero_div]
  exact units_le_of_value_le (m := .float .zero) rfl hn (hzero ▸ h)

/-- A count below `2 ^ 53` is less as a double than a number which it is less than. -/
theorem units_lt_of_lt_value (hx : Double.ofInt? k = some x) (hn : n.toDouble? = some y) (hk : k < 2 ^ 53)
    (h : k < n.value) : x.units < y.units := by
  have hone : (0 : Int) < Double.one := Int.natCast_pos.2 Double.one_pos
  have hexact : x.units = k * Double.one := by
    rw [Double.units_of_ofInt? hx, Double.rounded_natCast hk.le]
  have hlt : (k : Int) * Double.one < n.units := by
    have hcast : (Number.int k).value < n.value := by
      rw [value_int, Int.cast_natCast]
      exact h
    exact value_lt_value_iff.1 hcast
  cases n with
  | float z =>
    cases hn
    rw [hexact]
    exact hlt
  | int i =>
    have hki : (k : Int) + 1 ≤ i := Int.lt_of_mul_lt_mul_right hlt hone.le
    have hnext : Double.rounded ((k + 1 : Nat) : Int) = (k + 1 : Nat) := Double.rounded_natCast hk
    have hle := Double.rounded_mono (show ((k + 1 : Nat) : Int) ≤ i by omega)
    rw [hnext] at hle
    rw [hexact, Double.units_of_ofInt? hn]
    exact Int.mul_lt_mul_of_pos_right (by omega) hone

end Number

end Patchbay
