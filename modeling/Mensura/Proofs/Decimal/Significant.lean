import Mensura.Proofs.Binary64.FirstDigit

/-!
# Significant digits

A quotient that lies close to a number of so many digits has these digits as its significant ones.
It may lie on the other side of a power of ten: then it has one digit more in front of the point
than it seems, and rounding carries.
-/

set_option autoImplicit false

namespace Mensura
namespace Decimal

open Binary64

/-- The integer that a quotient is closer to than one half is the rounded quotient. -/
theorem roundHalfEven_eq_of_near {num den n : Nat} (hden : 0 < den)
    (h : |(num / den : Rat) - n| < 1 / 2) : roundHalfEven num den = n := by
  have hround := abs_roundHalfEven_sub_le num hden
  have hnear : |((roundHalfEven num den : Int) : Rat) - (n : Int)| < 1 := by
    push_cast
    calc |(roundHalfEven num den : Rat) - n|
        ≤ |(roundHalfEven num den : Rat) - num / den| + |(num / den : Rat) - n| :=
          abs_sub_le _ _ _
      _ < 1 := by linarith
  have hint : |(roundHalfEven num den : Int) - n| < 1 := by exact_mod_cast hnear
  have hzero := Int.abs_lt_one_iff.mp hint
  omega

/-- The digits of a quotient of known order; rounding may carry. -/
theorem significant_of_order {count num den n : Nat} {e : Int} (hden : 0 < den)
    (horder : orderOf num den = e) (h : |(num / den : Rat) * 10 ^ (count - 1 - e) - n| < 1 / 2) :
    significant count num den = if n = 10 ^ count then (10 ^ (count - 1), e + 1) else (n, e) := by
  obtain ⟨hden', hquotient⟩ := shiftRatio_quotient num hden (count - 1 - e)
  have hdigits := roundHalfEven_eq_of_near hden' (by rwa [hquotient])
  rw [significant]
  dsimp only
  rw [horder, hdigits]
  rfl

section Near

variable {count num den n : Nat} {e : Int}

/-- The first of so many digits stands where the power of ten does. -/
theorem first_place (hcount : 0 < count) :
    (10 : Rat) ^ e * 10 ^ (count - 1 - e) = 10 ^ (count - 1) := by
  rw [← zpow_add₀ (by norm_num), add_sub_cancel, ← zpow_natCast, Nat.cast_pred hcount]

/-- Nothing is carried if the quotient does not lie below the power of ten. -/
theorem significant_of_le (hcount : 0 < count) (hden : 0 < den) (hnum : 0 < num)
    (hhigh : n < 10 ^ count) (hlarge : 10 ^ (count - 1) ≤ (num / den : Rat) * 10 ^ (count - 1 - e))
    (hhalf : |(num / den : Rat) * 10 ^ (count - 1 - e) - n| < 1 / 2) :
    significant count num den = (n, e) := by
  have hscale : (0 : Rat) < 10 ^ (count - 1 - e) := by positivity
  have hn : (n : Rat) + 1 ≤ 10 ^ count := by exact_mod_cast hhigh
  have hpowers : (10 : Rat) ^ count = 10 ^ (count - 1) * 10 := (pow_sub_one_mul hcount.ne' 10).symm
  have horder : orderOf num den = e := by
    refine orderOf_eq hnum hden ?_ ?_
    · rw [← mul_le_mul_iff_left₀ hscale, first_place hcount]
      exact hlarge
    · rw [← mul_lt_mul_iff_left₀ hscale, zpow_add_one₀ (by norm_num), mul_right_comm,
        first_place hcount]
      linarith [(abs_lt.mp hhalf).2]
  rw [significant_of_order hden horder hhalf, if_neg hhigh.ne]

/-- Below the power of ten, a quotient close enough to it is rounded to it, and the digits carry. -/
theorem significant_of_lt (hcount : 0 < count) (hden : 0 < den) (hnum : 0 < num)
    (hsmall : (num / den : Rat) * 10 ^ (count - 1 - e) < 10 ^ (count - 1))
    (hnear : |(num / den : Rat) * 10 ^ (count - 1 - e) - 10 ^ (count - 1)| < 1 / 20) :
    significant count num den = (10 ^ (count - 1), e) := by
  have hten : (10 : Rat) ≠ 0 := by norm_num
  have hscale : (0 : Rat) < 10 ^ (count - 1 - e) := by positivity
  have hone : (1 : Rat) ≤ 10 ^ (count - 1) := one_le_pow₀ (by norm_num)
  have horder : orderOf num den = e - 1 := by
    refine orderOf_eq hnum hden ?_ ?_
    · rw [← mul_le_mul_iff_left₀ hscale, zpow_sub_one₀ hten, mul_right_comm, first_place hcount]
      linarith [(abs_lt.mp hnear).1]
    · rw [← mul_lt_mul_iff_left₀ hscale, sub_add_cancel, first_place hcount]
      exact hsmall
  have hshift : (num / den : Rat) * 10 ^ (count - 1 - (e - 1)) - (10 ^ count : Nat) =
      ((num / den : Rat) * 10 ^ (count - 1 - e) - 10 ^ (count - 1)) * 10 := by
    have hexponent : (count : Int) - 1 - (e - 1) = count - 1 - e + 1 := by ring
    rw [hexponent, zpow_add_one₀ hten, Nat.cast_pow, Nat.cast_ofNat, sub_mul,
      pow_sub_one_mul hcount.ne', mul_assoc]
  have hcarry : |(num / den : Rat) * 10 ^ (count - 1 - (e - 1)) - (10 ^ count : Nat)| < 1 / 2 := by
    rw [hshift, abs_mul, abs_of_pos (by norm_num : (0 : Rat) < 10)]
    linarith
  rw [significant_of_order hden horder hcarry, if_pos rfl, sub_add_cancel]

/-- **The significant digits of a quotient are those of a number close to it**, whichever side of a
power of ten it is on. -/
theorem significant_eq (hcount : 0 < count) (hden : 0 < den) (hlow : 10 ^ (count - 1) ≤ n)
    (hhigh : n < 10 ^ count)
    (hnear : 2 * 10 ^ count * |(num / den : Rat) * 10 ^ (count - 1 - e) - n| < n) :
    significant count num den = (n, e) := by
  have hone : (1 : Rat) ≤ 10 ^ (count - 1) := one_le_pow₀ (by norm_num)
  have hpowers : (10 : Rat) ^ count = 10 ^ (count - 1) * 10 := (pow_sub_one_mul hcount.ne' 10).symm
  have hn : (10 : Rat) ^ (count - 1) ≤ n := by exact_mod_cast hlow
  have hn' : (n : Rat) < 10 ^ count := by exact_mod_cast hhigh
  have hhalf : |(num / den : Rat) * 10 ^ (count - 1 - e) - n| < 1 / 2 := by
    have hbound : 10 ^ count * (2 * |(num / den : Rat) * 10 ^ (count - 1 - e) - n|) <
        10 ^ count * 1 := by linarith
    linarith [lt_of_mul_lt_mul_left hbound (by positivity)]
  have hnum : 0 < num := by
    rcases Nat.eq_zero_or_pos num with rfl | hpos
    · rw [Nat.cast_zero, zero_div, zero_mul] at hhalf
      linarith [(abs_lt.mp hhalf).1]
    · exact hpos
  rcases le_or_gt (10 ^ (count - 1)) ((num / den : Rat) * 10 ^ (count - 1 - e)) with hlarge | hsmall
  · exact significant_of_le hcount hden hnum hhigh hlarge hhalf
  · have hless : (n : Rat) < (10 ^ (count - 1) + 1 : Nat) := by
      push_cast
      linarith [(abs_lt.mp hhalf).1]
    obtain rfl : n = 10 ^ (count - 1) :=
      le_antisymm (Nat.lt_succ_iff.mp (by exact_mod_cast hless)) hlow
    rw [Nat.cast_pow, Nat.cast_ofNat] at hnear
    refine significant_of_lt hcount hden hnum hsmall ?_
    have hbound : 10 ^ (count - 1) *
        (20 * |(num / den : Rat) * 10 ^ (count - 1 - e) - 10 ^ (count - 1)|) <
          10 ^ (count - 1) * 1 := by
      rw [hpowers] at hnear
      linarith
    linarith [lt_of_mul_lt_mul_left hbound (by positivity)]

end Near

end Decimal
end Mensura
