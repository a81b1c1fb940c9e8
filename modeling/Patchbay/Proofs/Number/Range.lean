import Patchbay.Number.Double
import Mathlib.Algebra.Order.Ring.Nat

/-! The range of the doubles. A number of units that is not beyond the largest double has a double nearest to it, and
every integer of a machine word is such a number. -/

namespace Patchbay

theorem roundQuotient_le (n d : Nat) : roundQuotient n d ≤ n / d + 1 := by
  unfold roundQuotient
  dsimp only
  split_ifs <;> omega

/-- A number of at most 53 bits, shifted. Where the rounding has carried into a 54th bit, all the others are zero. -/
theorem isMagnitude_mul_pow {q e : Nat} (hq : q ≤ 2 ^ 53) (he : e < 2045) : IsMagnitude (q * 2 ^ e) := by
  obtain rfl | hpos := Nat.eq_zero_or_pos q
  · rw [Nat.zero_mul]
    exact ⟨Nat.dvd_zero _, by decide⟩
  obtain rfl | hlt := hq.eq_or_lt
  · rw [← Nat.pow_add, IsMagnitude, Nat.log2_two_pow]
    exact ⟨Nat.pow_dvd_pow 2 (by omega), by omega⟩
  · have hne : q * 2 ^ e ≠ 0 := (Nat.mul_pos hpos (Nat.two_pow_pos e)).ne'
    have hlog : (q * 2 ^ e).log2 < 53 + e := by
      rw [Nat.log2_lt hne, Nat.pow_add]
      exact Nat.mul_lt_mul_of_pos_right hlt (Nat.two_pow_pos e)
    exact ⟨Dvd.dvd.mul_left (Nat.pow_dvd_pow 2 (by omega)) q, by omega⟩

namespace Double

theorem isMagnitude_nearestMagnitude {n d : Nat} (h : (n / d).log2 < 2097) : IsMagnitude (nearestMagnitude n d) := by
  have hstep : 0 < 2 ^ ((n / d).log2 - 52) := Nat.two_pow_pos _
  refine isMagnitude_mul_pow (e := (n / d).log2 - 52) ?_ (by omega)
  refine (roundQuotient_le _ _).trans (Nat.succ_le_of_lt ?_)
  rw [← Nat.div_div_eq_div_mul]
  refine (Nat.div_lt_iff_lt_mul hstep).2 ((Nat.lt_log2_self).trans_le ?_)
  rw [← Nat.pow_add]
  exact Nat.pow_le_pow_right (by decide) (by omega)

theorem log2_mul_pow {n k e : Nat} (h : n < 2 ^ k) : (n * Nat.pow 2 e).log2 ≤ k + e := by
  obtain rfl | hpos := Nat.eq_zero_or_pos n
  · rw [Nat.zero_mul, Nat.log2_zero]
    exact Nat.zero_le _
  have hstep : 0 < Nat.pow 2 e := Nat.two_pow_pos e
  refine Nat.le_of_lt ((Nat.log2_lt (Nat.mul_pos hpos hstep).ne').2 ?_)
  rw [Nat.pow_add]
  exact Nat.mul_lt_mul_of_pos_right h hstep

theorem exists_ofInt? {i : Int} (h : i.natAbs < 2 ^ 64) : ∃ x, ofInt? i = some x := by
  obtain ⟨e, hone, he⟩ : ∃ e, one = Nat.pow 2 e ∧ 64 + e < 2097 := ⟨1074, rfl, by decide⟩
  have hlog : (i.natAbs * one / 1).log2 < 2097 := by
    rw [Nat.div_one, hone]
    exact (log2_mul_pow h).trans_lt he
  exact ⟨_, dif_pos (isMagnitude_nearestMagnitude hlog)⟩

end Double

end Patchbay
