import Patchbay.Proofs.Number.Nearest
import Patchbay.Proofs.Number.Range
import Mathlib.Order.Monotone.Defs

/-! Integers as doubles. Rounding an integer to the nearest double keeps the order, leaves what has 53 bits as it is,
and moves no integer of a machine word by more than 1024. Beyond the 53 bits neighbours may become one double. -/

namespace Patchbay

theorem roundQuotient_mono (d : Nat) : Monotone (roundQuotient · d) := by
  intro n m h
  obtain rfl | hd := Nat.eq_zero_or_pos d
  · simp only [roundQuotient, Nat.div_zero, Nat.mod_zero]
    split_ifs <;> omega
  have hn := Nat.div_add_mod n d
  have hm := Nat.div_add_mod m d
  rcases (Nat.div_le_div_right (c := d) h).eq_or_lt with heq | hlt
  · -- within one step the remainders decide
    rw [← heq] at hm
    simp only [roundQuotient, ← heq]
    split_ifs <;> omega
  · calc roundQuotient n d ≤ n / d + 1 := roundQuotient_le n d
      _ ≤ m / d := hlt
      _ ≤ roundQuotient m d := by
        simp only [roundQuotient]
        split_ifs <;> omega

/-- Rounding moves a number by half a step at most. -/
theorem roundQuotient_near {d : Nat} (hd : 0 < d) (n : Nat) :
    2 * n ≤ 2 * (roundQuotient n d * d) + d ∧ 2 * (roundQuotient n d * d) ≤ 2 * n + d := by
  have hn := Nat.div_add_mod n d
  have hr := Nat.mod_lt n hd
  simp only [roundQuotient]
  have hup : (n / d + 1) * d = n / d * d + d := Nat.succ_mul _ _
  rw [Nat.mul_comm] at hn
  split_ifs <;> omega

namespace Double

theorem nearestMagnitude_one (n : Nat) :
    nearestMagnitude n 1 = roundQuotient n (2 ^ (n.log2 - 52)) * 2 ^ (n.log2 - 52) := by
  simp only [nearestMagnitude, Nat.div_one, Nat.one_mul]
  rfl

theorem nearestMagnitude_of_le {n : Nat} (h : n ≤ 2 ^ 53) : nearestMagnitude n 1 = n := by
  have hm := isMagnitude_mul_pow (e := 0) h (by decide)
  rw [Nat.pow_zero, Nat.mul_one] at hm
  exact nearestMagnitude_of_isMagnitude hm

/-- A power of two that is no less than a step is met exactly. -/
theorem roundQuotient_two_pow {a b : Nat} (h : a ≤ b) : roundQuotient (2 ^ b) (2 ^ a) * 2 ^ a = 2 ^ b := by
  have hdvd : 2 ^ a ∣ 2 ^ b := Nat.pow_dvd_pow 2 h
  rw [roundQuotient_of_dvd (Nat.two_pow_pos a) hdvd, Nat.div_mul_cancel hdvd]

/-- What a number is rounded to lies between the powers of two that it lies between itself. -/
theorem nearestMagnitude_bounds {n : Nat} (hn : n ≠ 0) :
    2 ^ n.log2 ≤ nearestMagnitude n 1 ∧ nearestMagnitude n 1 ≤ 2 ^ (n.log2 + 1) := by
  rw [nearestMagnitude_one]
  constructor
  · calc 2 ^ n.log2 = roundQuotient (2 ^ n.log2) (2 ^ (n.log2 - 52)) * 2 ^ (n.log2 - 52) :=
        (roundQuotient_two_pow (Nat.sub_le ..)).symm
      _ ≤ _ := Nat.mul_le_mul_right _ (roundQuotient_mono _ (Nat.log2_self_le hn))
  · calc roundQuotient n (2 ^ (n.log2 - 52)) * 2 ^ (n.log2 - 52)
        ≤ roundQuotient (2 ^ (n.log2 + 1)) (2 ^ (n.log2 - 52)) * 2 ^ (n.log2 - 52) :=
          Nat.mul_le_mul_right _ (roundQuotient_mono _ Nat.lt_log2_self.le)
      _ = 2 ^ (n.log2 + 1) := roundQuotient_two_pow (by omega)

theorem nearestMagnitude_mono : Monotone (nearestMagnitude · 1) := by
  intro n m h
  obtain rfl | hn := Nat.eq_zero_or_pos n
  · exact Nat.zero_le _
  have hm : m ≠ 0 := (hn.trans_le h).ne'
  have hlog : n.log2 ≤ m.log2 := (Nat.le_log2 hm).2 ((Nat.log2_self_le hn.ne').trans h)
  rcases hlog.eq_or_lt with heq | hlt
  · simp only [nearestMagnitude_one, heq]
    exact Nat.mul_le_mul_right _ (roundQuotient_mono _ h)
  · calc nearestMagnitude n 1 ≤ 2 ^ (n.log2 + 1) := (nearestMagnitude_bounds hn.ne').2
      _ ≤ 2 ^ m.log2 := Nat.pow_le_pow_right (by decide) hlt
      _ ≤ nearestMagnitude m 1 := (nearestMagnitude_bounds hm).1

theorem nearestMagnitude_near {n : Nat} (h : n < 2 ^ 64) :
    n ≤ nearestMagnitude n 1 + 1024 ∧ nearestMagnitude n 1 ≤ n + 1024 := by
  obtain rfl | hn := Nat.eq_zero_or_pos n
  · rw [nearestMagnitude_of_le (Nat.zero_le _)]
    exact ⟨Nat.zero_le _, Nat.zero_le _⟩
  have hlog : n.log2 < 64 := (Nat.log2_lt hn.ne').2 h
  have hstep : 2 ^ (n.log2 - 52) ≤ 2 ^ 11 := Nat.pow_le_pow_right (by decide) (by omega)
  have hnear := roundQuotient_near (Nat.two_pow_pos (n.log2 - 52)) n
  rw [nearestMagnitude_one]
  omega

theorem nearestMagnitude_mul_two_pow (n : Nat) {k : Nat} (hk : k < 2045) :
    nearestMagnitude (n * 2 ^ k) 1 = nearestMagnitude n 1 * 2 ^ k := by
  rcases Nat.lt_or_ge n (2 ^ 52) with hlt | hge
  · have hle : n ≤ 2 ^ 53 := hlt.le.trans (Nat.pow_le_pow_right (by decide) (by decide))
    rw [nearestMagnitude_of_le hle]
    exact nearestMagnitude_of_isMagnitude (isMagnitude_mul_pow hle hk)
  · have hn : n ≠ 0 := (Nat.lt_of_lt_of_le (Nat.two_pow_pos 52) hge).ne'
    have hlog : (n * 2 ^ k).log2 = n.log2 + k := by
      have hne : n * 2 ^ k ≠ 0 := (Nat.mul_pos (Nat.pos_of_ne_zero hn) (Nat.two_pow_pos k)).ne'
      refine (Nat.log2_eq_iff hne).2 ⟨?_, ?_⟩
      · rw [Nat.pow_add]
        exact Nat.mul_le_mul_right _ (Nat.log2_self_le hn)
      · rw [Nat.add_right_comm, Nat.pow_add]
        exact Nat.mul_lt_mul_of_pos_right Nat.lt_log2_self (Nat.two_pow_pos k)
    have hleast : 52 ≤ n.log2 := (Nat.le_log2 hn).2 hge
    have hstep : 2 ^ (n.log2 + k - 52) = 2 ^ (n.log2 - 52) * 2 ^ k := by
      rw [← Nat.pow_add]
      congr 1
      omega
    rw [nearestMagnitude_one, nearestMagnitude_one, hlog, hstep, roundQuotient_mul_right _ _ (Nat.two_pow_pos k),
      Nat.mul_assoc]

/-- It is the same to round an integer and to round it counted in units. -/
theorem nearestMagnitude_mul_one (n : Nat) : nearestMagnitude (n * one) 1 = nearestMagnitude n 1 * one := by
  obtain ⟨k, hone, hk⟩ : ∃ k, one = Nat.pow 2 k ∧ k < 2045 := ⟨1074, rfl, by decide⟩
  rw [hone]
  exact nearestMagnitude_mul_two_pow n hk

/-- The integer that an integer becomes as a double. -/
def rounded (i : Int) : Int := if i < 0 then -nearestMagnitude i.natAbs 1 else nearestMagnitude i.natAbs 1

theorem units_of_ofInt? {i : Int} {x : Double} (h : ofInt? i = some x) : x.units = rounded i * one := by
  rw [ofInt?, ofRatio?, ofUnits?] at h
  split at h
  · cases h
    simp only [units, rounded, nearestMagnitude_mul_one, decide_eq_true_eq, Int.natCast_mul]
    split_ifs
    · rw [Int.neg_mul]
    · rfl
  · cases h

theorem one_pos : 0 < one := by
  obtain ⟨k, hone⟩ : ∃ k, one = Nat.pow 2 k := ⟨1074, rfl⟩
  rw [hone]
  exact Nat.two_pow_pos k

/-- The integer that a double stands for, or the next one towards zero. -/
theorem toInt_eq_tdiv (x : Double) : x.toInt = x.units.tdiv one := by
  unfold toInt units
  split
  · rw [Int.neg_tdiv]
    rfl
  · rfl

theorem toInt_of_ofInt? {i : Int} {x : Double} (h : ofInt? i = some x) : x.toInt = rounded i := by
  rw [toInt_eq_tdiv, units_of_ofInt? h, Int.mul_tdiv_cancel _ (Int.natCast_pos.2 one_pos).ne']

/-- Integers compare as doubles by what they are rounded to. -/
theorem units_ofInt?_lt_iff {i j : Int} {x y : Double} (hx : ofInt? i = some x) (hy : ofInt? j = some y) :
    x.units < y.units ↔ rounded i < rounded j := by
  rw [units_of_ofInt? hx, units_of_ofInt? hy]
  exact Int.mul_lt_mul_right (Int.natCast_pos.2 one_pos)

theorem units_ofInt?_eq_iff {i j : Int} {x y : Double} (hx : ofInt? i = some x) (hy : ofInt? j = some y) :
    x.units = y.units ↔ rounded i = rounded j := by
  rw [units_of_ofInt? hx, units_of_ofInt? hy]
  exact Int.mul_eq_mul_right_iff (Int.natCast_pos.2 one_pos).ne'

theorem rounded_mono {i j : Int} (h : i ≤ j) : rounded i ≤ rounded j := by
  simp only [rounded]
  split_ifs with hi hj hj
  · have := nearestMagnitude_mono (show j.natAbs ≤ i.natAbs by omega)
    dsimp only at this
    omega
  · omega
  · omega
  · have := nearestMagnitude_mono (show i.natAbs ≤ j.natAbs by omega)
    dsimp only at this
    omega

theorem rounded_of_natAbs_le {i : Int} (h : i.natAbs ≤ 2 ^ 53) : rounded i = i := by
  rw [rounded, nearestMagnitude_of_le h]
  split_ifs <;> omega

theorem rounded_natCast {n : Nat} (h : n ≤ 2 ^ 53) : rounded n = n := rounded_of_natAbs_le (Int.natAbs_natCast n ▸ h)

theorem natAbs_rounded_sub_le {i : Int} (h : i.natAbs < 2 ^ 64) : (rounded i - i).natAbs ≤ 1024 := by
  have hnear := nearestMagnitude_near h
  rw [rounded]
  split_ifs <;> omega

/-- Integers that become one double are neighbours. -/
theorem natAbs_sub_le_of_rounded_eq {i j : Int} (hi : i.natAbs < 2 ^ 64) (hj : j.natAbs < 2 ^ 64)
    (h : rounded i = rounded j) : (i - j).natAbs ≤ 2048 := by
  have hni := natAbs_rounded_sub_le hi
  have hnj := natAbs_rounded_sub_le hj
  omega

end Double

end Patchbay
