import Patchbay.Number.Decimal
import Mathlib.Algebra.Order.Ring.Nat

/-! Doubles and the decimals that stand for them. What a ratio rounds to depends on its value alone, a double rounds to
itself, and the shortest decimal of a double reads back as that double. -/

namespace Patchbay

theorem roundQuotient_mul_right (n d : Nat) {k : Nat} (hk : 0 < k) :
    roundQuotient (n * k) (d * k) = roundQuotient n d := by
  have hq : n * k / (d * k) = n / d := Nat.mul_div_mul_right n d hk
  have hr : n * k % (d * k) = n % d * k := Nat.mul_mod_mul_right k n d
  have hdown : 2 * (n % d * k) < d * k ↔ 2 * (n % d) < d := by
    rw [← Nat.mul_assoc]
    exact Nat.mul_lt_mul_right hk
  have hup : d * k < 2 * (n % d * k) ↔ d < 2 * (n % d) := by
    rw [← Nat.mul_assoc]
    exact Nat.mul_lt_mul_right hk
  simp only [roundQuotient, hq, hr, hdown, hup]

theorem roundQuotient_of_dvd {n d : Nat} (hd : 0 < d) (h : d ∣ n) : roundQuotient n d = n / d := by
  have hr : n % d = 0 := Nat.mod_eq_zero_of_dvd h
  simp only [roundQuotient, hr, Nat.mul_zero, hd, if_true]

namespace Double

theorem nearestMagnitude_mul_right (n d : Nat) {k : Nat} (hk : 0 < k) :
    nearestMagnitude (n * k) (d * k) = nearestMagnitude n d := by
  simp only [nearestMagnitude]
  rw [Nat.mul_div_mul_right n d hk, Nat.mul_right_comm, roundQuotient_mul_right _ _ hk]

theorem nearestMagnitude_of_isMagnitude {m : Nat} (h : IsMagnitude m) : nearestMagnitude m 1 = m := by
  have hpos : 0 < Nat.pow 2 (m.log2 - 52) := Nat.pow_pos (by decide)
  simp only [nearestMagnitude, Nat.div_one, Nat.one_mul]
  rw [roundQuotient_of_dvd hpos h.1, Nat.div_mul_cancel h.1]

theorem ofUnits?_mul_right (neg : Bool) (n d : Nat) {k : Nat} (hk : 0 < k) :
    ofUnits? neg (n * k) (d * k) = ofUnits? neg n d := by
  simp only [ofUnits?, nearestMagnitude_mul_right n d hk]

theorem ofRatio?_mul_right (neg : Bool) (n d : Nat) {k : Nat} (hk : 0 < k) :
    ofRatio? neg (n * k) (d * k) = ofRatio? neg n d := by
  rw [ofRatio?, Nat.mul_right_comm, ofUnits?_mul_right _ _ _ hk, ofRatio?]

theorem ofUnits?_mag (x : Double) : ofUnits? x.neg x.mag 1 = some x := by
  simp only [ofUnits?, nearestMagnitude_of_isMagnitude x.isMagnitude, x.isMagnitude, dite_true]

end Double

theorem ten_pow_pos (k : Nat) : 0 < 10 ^ k := Nat.pow_pos (by decide)

/-! ## Digits -/

theorem digitCount_eq (n : Nat) : digitCount n = (Nat.toDigits 10 n).length := by
  rw [digitCount, ← String.length_toList, Nat.toList_repr]

theorem digitCount_le_iff {n k : Nat} (hk : 0 < k) : digitCount n ≤ k ↔ n < 10 ^ k := by
  rw [digitCount_eq]
  exact Nat.length_toDigits_le_iff (by decide) hk

theorem toDigits_mul_pow_ten {n : Nat} (hn : 0 < n) (k : Nat) :
    Nat.toDigits 10 (n * 10 ^ k) = Nat.toDigits 10 n ++ List.replicate k '0' := by
  induction k with
  | zero => simp
  | succ k ih =>
    have hpos : 0 < n * 10 ^ k := Nat.mul_pos hn (ten_pow_pos k)
    have hstep := Nat.toDigits_append_toDigits (b := 10) (by decide) hpos (show 0 < 10 by decide)
    rw [ih, Nat.add_zero, Nat.toDigits_zero] at hstep
    rw [Nat.pow_succ, ← Nat.mul_assoc, Nat.mul_comm _ 10, ← hstep, List.append_assoc, List.replicate_succ']

theorem digitCount_mul_pow_ten {n : Nat} (hn : 0 < n) (k : Nat) :
    digitCount (n * 10 ^ k) = digitCount n + k := by
  rw [digitCount_eq, toDigits_mul_pow_ten hn, List.length_append, List.length_replicate, digitCount_eq]

namespace Decimal

theorem toDouble?_zero (neg : Bool) (e : Int) : toDouble? ⟨neg, 0, e⟩ = Double.ofUnits? neg 0 1 := by
  simp [toDouble?]

theorem toDouble?_of_neg {neg : Bool} {c : Nat} {e : Int} (hc : 0 < c) (he : e < 0)
    (hleast : -330 ≤ e + digitCount c) (hmost : e + digitCount c ≤ 310) :
    toDouble? ⟨neg, c, e⟩ = Double.ofRatio? neg c (10 ^ (-e).toNat) := by
  simp only [toDouble?]
  rw [if_neg (by omega), if_neg (by omega), if_neg (by omega)]
  rfl

/-- Zeros moved from the exponent to the coefficient leave the number what it is. -/
theorem toDouble?_mul_pow_ten (neg : Bool) (c : Nat) (e : Int) (k : Nat) :
    toDouble? ⟨neg, c * 10 ^ k, e - k⟩ = toDouble? ⟨neg, c, e⟩ := by
  obtain rfl | hc := Nat.eq_zero_or_pos c
  · rw [Nat.zero_mul, toDouble?_zero, toDouble?_zero]
  have hck : 0 < c * 10 ^ k := Nat.mul_pos hc (ten_pow_pos k)
  have hlead : e - k + digitCount (c * 10 ^ k) = e + digitCount c := by
    rw [digitCount_mul_pow_ten hc]
    omega
  simp only [toDouble?, hlead, hc.ne', hck.ne', false_or]
  split
  · rfl
  split
  · rfl
  -- the point is left of the digits, right of them, or has come to stand among them
  by_cases he : 0 ≤ e
  · rw [if_pos he]
    by_cases hek : 0 ≤ e - k
    · have hexp : k + (e - k).toNat = e.toNat := by omega
      rw [if_pos hek]
      show Double.ofRatio? neg (c * 10 ^ k * 10 ^ (e - k).toNat) 1 = Double.ofRatio? neg (c * 10 ^ e.toNat) 1
      rw [Nat.mul_assoc, ← Nat.pow_add, hexp]
    · have hexp : k = e.toNat + (-(e - k)).toNat := by omega
      rw [if_neg hek, ← Double.ofRatio?_mul_right neg _ 1 (ten_pow_pos (-(e - k)).toNat),
        Nat.one_mul]
      show Double.ofRatio? neg (c * 10 ^ k) _ = Double.ofRatio? neg (c * 10 ^ e.toNat * 10 ^ (-(e - k)).toNat) _
      rw [Nat.mul_assoc, ← Nat.pow_add, ← hexp]
      rfl
  · have hek : ¬0 ≤ e - k := by omega
    have hexp : (-(e - k)).toNat = (-e).toNat + k := by omega
    rw [if_neg he, if_neg hek, ← Double.ofRatio?_mul_right neg c _ (ten_pow_pos k)]
    show Double.ofRatio? neg (c * 10 ^ k) (10 ^ (-(e - k)).toNat) =
      Double.ofRatio? neg (c * 10 ^ k) (10 ^ (-e).toNat * 10 ^ k)
    rw [← Nat.pow_add, hexp]

end Decimal

namespace Double

theorem five_pow_pos (k : Nat) : 0 < 5 ^ k := Nat.pow_pos (by decide)

theorem mul_five_pow_lt {m k : Nat} (hm : 0 < m) (hlog : m.log2 < k) (e : Nat) :
    m * 5 ^ e < 2 ^ k * 5 ^ e :=
  Nat.mul_lt_mul_of_pos_right ((Nat.log2_lt hm.ne').1 hlog) (five_pow_pos e)

theorem digitCount_exactDecimal {m : Nat} (hm : 0 < m) (hlog : m.log2 < 2098) :
    743 < digitCount (m * 5 ^ 1074) ∧ digitCount (m * 5 ^ 1074) ≤ 1384 := by
  have hleast : 10 ^ 743 ≤ 5 ^ 1074 := by decide +kernel
  have hmost : 2 ^ 2098 * 5 ^ 1074 ≤ 10 ^ 1384 := by decide +kernel
  constructor
  · rw [← Nat.not_le, digitCount_le_iff (by decide), Nat.not_lt]
    exact hleast.trans (Nat.le_mul_of_pos_left _ hm)
  · rw [digitCount_le_iff (by decide)]
    exact (mul_five_pow_lt hm hlog 1074).trans_le hmost

/-- A number of units over a power of ten, once its fives are in the coefficient. -/
theorem ofRatio?_five_pow (neg : Bool) (m : Nat) {k : Nat} (hk : one = 2 ^ k) :
    ofRatio? neg (m * 5 ^ k) (10 ^ k) = ofUnits? neg m 1 := by
  have hten : 5 ^ k * 2 ^ k = 10 ^ k := by rw [← Nat.mul_pow]
  rw [ofRatio?, hk, Nat.mul_assoc, hten, ← ofUnits?_mul_right neg m 1 (ten_pow_pos k),
    Nat.one_mul]

theorem toDouble?_exactDecimal (x : Double) : x.exactDecimal.toDouble? = some x := by
  obtain hx | hx := Nat.eq_zero_or_pos x.mag
  · have hzero : x.exactDecimal = ⟨x.neg, 0, -1074⟩ := by rw [exactDecimal, hx, Nat.zero_mul]
    rw [hzero, Decimal.toDouble?_zero, ← hx, ofUnits?_mag]
  have hcoeff : 0 < x.mag * 5 ^ 1074 := Nat.mul_pos hx (five_pow_pos 1074)
  obtain ⟨hleast, hmost⟩ := digitCount_exactDecimal hx x.isMagnitude.2
  have hdecimal : x.exactDecimal = ⟨x.neg, x.mag * 5 ^ 1074, -1074⟩ := rfl
  rw [hdecimal, Decimal.toDouble?_of_neg hcoeff (by decide) (by omega) (by omega),
    show (-(-1074 : Int)).toNat = 1074 from rfl, ofRatio?_five_pow _ _ rfl, ofUnits?_mag]

/-- The decimal that a double is written as reads back as that double. -/
theorem toDouble?_shortest (x : Double) : x.shortest.toDouble? = some x := by
  unfold shortest
  split
  · next hx => rw [Decimal.toDouble?_zero, ← hx, ofUnits?_mag]
  dsimp only
  split
  · split
    · next hy => exact hy
    · exact toDouble?_exactDecimal x
  · exact toDouble?_exactDecimal x

end Double

end Patchbay
