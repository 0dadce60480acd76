import Mathlib
import Mensura.Proofs.Binary64.Rebuilt

/-!
# Doubles at integers

A finite double is its sign and the size that its other bits say (`eq_sign_mul`).  Integers below
`2 ^ 53` are doubles (`toRat?_ofInt`).

An integer that is held as a mantissa and a power of ten comes back as `rebuiltInt`, which is close
to it (`rebuiltInt_near`): far closer than one half, so that the nearest integer is still the one
that was written, and close enough to show the same fifteen digits.
-/

set_option autoImplicit false

namespace Mensura
namespace Binary64

open Float.Model

variable {x : Float} {a : Rat}

/-! ## Signs -/

theorem scaledRatio_den_pos (m : Nat) (e : Int) : 0 < (scaledRatio m e).2 := by
  cases e with
  | ofNat k => exact Nat.one_pos
  | negSucc k => exact Nat.pow_pos (by norm_num)

theorem scaledRatio_quotient (m : Nat) (e : Int) :
    ((scaledRatio m e).1 / (scaledRatio m e).2 : Rat) = m * 2 ^ e := by
  rw [← mkRat_scaledRatio, Rat.mkRat_eq_div, Int.cast_natCast]

theorem reading_eq_finite (hx : toRat? x = some a) :
    reading x = .finite (isNegative x)
      (scaledRatio (significand (magnitudeBits x)) (binaryExponent (magnitudeBits x))).1
      (scaledRatio (significand (magnitudeBits x)) (binaryExponent (magnitudeBits x))).2 := by
  cases hnan : x.isNaN with
  | true =>
    rw [toRat?, reading, hnan] at hx
    cases hx
  | false =>
    cases hinf : x.isInf with
    | true =>
      rw [toRat?, reading, hnan, hinf] at hx
      cases hx
    | false =>
      rw [reading, hnan, hinf]
      rfl

/-- A finite double is its sign and what its other bits say. -/
theorem eq_sign_mul (hx : toRat? x = some a) :
    a = (if isNegative x then -1 else 1) *
      (significand (magnitudeBits x) * 2 ^ binaryExponent (magnitudeBits x)) := by
  rw [toRat?, reading_eq_finite hx] at hx
  simp only [mkRat_scaledRatio, Option.some.injEq] at hx
  rw [← hx]
  split <;> simp

theorem abs_eq_of_toRat? (hx : toRat? x = some a) :
    |a| = significand (magnitudeBits x) * 2 ^ binaryExponent (magnitudeBits x) := by
  have hsize : (0 : Rat) ≤
      significand (magnitudeBits x) * 2 ^ binaryExponent (magnitudeBits x) := by positivity
  rw [eq_sign_mul hx, abs_mul, abs_of_nonneg hsize]
  split <;> simp

theorem isNegative_eq (hx : toRat? x = some a) (ha : a ≠ 0) : isNegative x = decide (a < 0) := by
  have hsplit := eq_sign_mul hx
  rw [← abs_eq_of_toRat? hx] at hsplit
  have hpos := abs_pos.mpr ha
  cases hsign : isNegative x with
  | false =>
    rw [hsign, if_neg Bool.false_ne_true, one_mul] at hsplit
    exact (decide_eq_false (by linarith)).symm
  | true =>
    rw [hsign, if_pos rfl, neg_one_mul] at hsplit
    exact (decide_eq_true (by linarith)).symm

/-- A double other than zero, taken apart. -/
theorem reading_of_ne_zero (hx : toRat? x = some a) (ha : a ≠ 0) :
    ∃ num den : Nat, 0 < num ∧ 0 < den ∧ reading x = .finite (decide (a < 0)) num den ∧
      (num / den : Rat) = |a| := by
  obtain ⟨num, den, hvalue, hden, hreading⟩ : ∃ num den : Nat, (num / den : Rat) = |a| ∧
      0 < den ∧ reading x = .finite (isNegative x) num den :=
    ⟨_, _, (scaledRatio_quotient _ _).trans (abs_eq_of_toRat? hx).symm, scaledRatio_den_pos _ _,
      reading_eq_finite hx⟩
  have hnum : num ≠ 0 := by
    rintro rfl
    rw [Nat.cast_zero, zero_div] at hvalue
    exact ha (abs_eq_zero.mp hvalue.symm)
  exact ⟨num, den, Nat.pos_of_ne_zero hnum, hden, by rw [hreading, isNegative_eq hx ha], hvalue⟩

theorem magnitudeBits_lt (hx : toRat? x = some a) : magnitudeBits x < infinityBits := by
  have hunpack : x.toModel.unpack = UnpackedFloat.unpack .binary64 x.toModel.toBits.toBitVec := rfl
  have hbits : magnitudeBits x = magnitudeOf x.toModel.toBits.toBitVec := rfl
  rw [toRat?_eq, hunpack, unpack_eq, ← hbits] at hx
  by_contra hlarge
  split at hx
  · cases hx
  · rw [if_pos (by omega)] at hx
    cases hx

/-- The size of one double with the sign of another. -/
theorem toRat?_copySign (hx : toRat? x = some a) (y : Float) :
    toRat? (copySign x y) = some ((if isNegative y then -1 else 1) * |a|) := by
  rw [copySign, toRat?_ofMagnitudeBits (magnitudeBits_lt hx), abs_eq_of_toRat? hx]

/-! ## Integers as doubles -/

theorem natAbs_cast_eq_abs (i : Int) : ((i.natAbs : Nat) : Rat) = |(i : Rat)| := by
  rw [Nat.cast_natAbs, Int.cast_abs]

theorem intCast_eq_sign_mul (i : Int) : (i : Rat) = i.sign * i.natAbs := by
  rw [← Int.cast_natCast, ← Int.cast_mul, Int.sign_mul_natAbs]

theorem abs_sign_of_ne_zero {i : Int} (hi : i ≠ 0) : |i.sign| = 1 := by
  rw [Int.abs_eq_natAbs, Int.natAbs_sign_of_ne_zero hi, Nat.cast_one]

/-- An integer below `2 ^ 53` is a double. -/
theorem toRat?_ofInt {k : Int} (hk : |k| < 2 ^ 53) : toRat? (ofInt k) = some (k : Rat) := by
  rw [Int.abs_eq_natAbs] at hk
  obtain ⟨n, hn⟩ : ∃ n, k.natAbs = n := ⟨_, rfl⟩
  have hsize : (n : Rat) = |(k : Rat)| := by rw [← hn, natAbs_cast_eq_abs]
  have hless : n < 2 ^ 53 := by exact_mod_cast hn ▸ hk
  have hrange : n = 0 ∨ Normal (n / (1 : Nat)) := by
    rcases Nat.eq_zero_or_pos n with hzero | hpos
    · exact .inl hzero
    · right
      have hone : (1 : Rat) ≤ n := by exact_mod_cast hpos
      have hless' : (n : Rat) < 2 ^ 53 := by exact_mod_cast hless
      rw [Nat.cast_one, div_one]
      refine Normal.of_bounds ?_ ?_
      · rw [Nat.abs_cast]
        linarith
      · rw [Nat.abs_cast]
        linarith
  rw [ofInt, hn, toRat?_nearest Nat.one_pos hrange, Nat.cast_one, div_one, toDouble_natCast hless,
    hsize]
  rcases lt_or_ge k 0 with hneg | hnonneg
  · have hneg' : (k : Rat) < 0 := by exact_mod_cast hneg
    rw [decide_eq_true hneg, if_pos rfl, abs_of_neg hneg', neg_one_mul, neg_neg]
  · have hnonneg' : (0 : Rat) ≤ k := by exact_mod_cast hnonneg
    rw [decide_eq_false hnonneg.not_gt, if_neg Bool.false_ne_true, abs_of_nonneg hnonneg', one_mul]

/-! ## Integers multiplied out of mantissa and exponent -/

/-- An integer multiplied out of its mantissa and its power of ten. -/
def rebuiltInt (i : Int) : Rat :=
  i.sign * rebuiltWhole i.natAbs

theorem abs_rebuiltWhole_sub_le (n : Nat) : 4 * 10 ^ 15 * |rebuiltWhole n - n| ≤ n := by
  rcases Nat.eq_zero_or_pos n with rfl | hpos
  · simp [rebuiltWhole, wholeMantissa_zero, toDouble_zero]
  · have hpower : (0 : Rat) < 10 ^ Decimal.log10 n := by positivity
    have hwithin : Within 2 (rebuiltWhole n) n := by
      have hresult := ((within_wholeMantissa hpos).mul hpower).toDouble
      rwa [div_mul_cancel₀ _ hpower.ne'] at hresult
    obtain ⟨hrebuilt, hn, hle, hle'⟩ := hwithin
    have hbound : |rebuiltWhole n - n| ≤ n / (4 * 10 ^ 15) := by
      rw [abs_le]
      constructor <;> norm_num at hle hle' ⊢ <;> linarith
    rwa [le_div_iff₀ (by norm_num), mul_comm] at hbound

/-- **What comes back of an integer is close to it.** -/
theorem rebuiltInt_near (i : Int) : 4 * 10 ^ 15 * |rebuiltInt i - i| ≤ |(i : Rat)| := by
  have hwhole := abs_rebuiltWhole_sub_le i.natAbs
  have hsign : |((i.sign : Int) : Rat)| ≤ 1 := by
    rcases Int.sign_trichotomy i with h | h | h <;> simp [h]
  have hdistance : |rebuiltInt i - i| ≤ |rebuiltWhole i.natAbs - i.natAbs| := by
    rw [rebuiltInt]
    conv_lhs => rw [intCast_eq_sign_mul i]
    rw [← mul_sub, abs_mul]
    exact mul_le_of_le_one_left (abs_nonneg _) hsign
  rw [← natAbs_cast_eq_abs]
  linarith

/-- It is less than one half away. -/
theorem abs_rebuiltInt_sub_le {i : Int} (hi : |i| ≤ 10 ^ 15) : |rebuiltInt i - i| ≤ 1 / 4 := by
  have hnear := rebuiltInt_near i
  have hbound : |(i : Rat)| ≤ 10 ^ 15 := by exact_mod_cast hi
  linarith

end Binary64
end Mensura
