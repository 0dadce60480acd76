import Mensura.Proofs.Scalar.Order
import Mensura.Scalar.Exact

/-!
# Laws of exact scalars

What the operations of `Scalar` are over the rationals, in the terms of a field: shifting the
decimal point multiplies by a power of ten, every number other than zero is a factor, no power
overflows, and the decimal exponent is the floor of the decimal logarithm.
-/

set_option autoImplicit false

namespace Mensura
namespace Exact

theorem isZero_iff {x : Rat} : Scalar.isZero x = true ↔ x = 0 := by
  simp [Scalar.isZero, Scalar.beq, Scalar.ofNat]

theorem isOne_iff {x : Rat} : Scalar.isOne x = true ↔ x = 1 := by
  simp [Scalar.isOne, Scalar.beq, Scalar.ofNat]

/-- Whatever is not zero scales. -/
theorem isFactor_iff {x : Rat} : Scalar.isFactor x = true ↔ x ≠ 0 := by
  simp [Scalar.isFactor, Scalar.isFinite, Bool.eq_false_iff, isZero_iff]

@[simp] theorem isFinite_eq (x : Rat) : Scalar.isFinite x = true := rfl

@[simp] theorem ofNat_eq (n : Nat) : (Scalar.ofNat n : Rat) = n := rfl

@[simp] theorem scale10_eq (x : Rat) (n : Int) : Scalar.scale10 x n = x * 10 ^ n := rfl

@[simp] theorem powInt_eq (x : Rat) (n : Int) : Scalar.powInt x n = some (x ^ n) := rfl

/-- A rational number is an integer exactly if its denominator is one. -/
theorem toInt?_eq_some {x : Rat} {n : Int} : Scalar.toInt? x = some n ↔ x = n := by
  simp only [Scalar.toInt?, Option.ite_none_right_eq_some, Option.some.injEq]
  constructor
  · rintro ⟨hden, rfl⟩
    exact (Rat.coe_int_num_of_den_eq_one hden).symm
  · rintro rfl
    exact ⟨Rat.den_intCast n, Rat.num_intCast n⟩

/-- A product keeps its value if powers of ten move between its factors and an exponent. -/
theorem shift_shift {m n : Rat} {e k l : Int} :
    m * 10 ^ (-l) * (n * 10 ^ (-k)) * 10 ^ (e + k + l) = m * n * 10 ^ e := by
  have hten : (10 : Rat) ≠ 0 := by norm_num
  rw [zpow_add₀ hten, zpow_add₀ hten, zpow_neg, zpow_neg]
  field_simp

theorem abs_eq_natAbs_div (x : Rat) : |x| = x.num.natAbs / x.den := by
  rw [Nat.cast_natAbs, Int.cast_abs, ← Nat.abs_cast x.den, ← abs_div, Rat.num_div_den]

/-- **The decimal exponent is the floor of the decimal logarithm.** -/
theorem ilog10_bounds {x : Rat} (hx : x ≠ 0) :
    10 ^ Scalar.ilog10 x ≤ |x| ∧ |x| < 10 ^ (Scalar.ilog10 x + 1) := by
  have horder : Scalar.ilog10 x = Decimal.orderOf x.num.natAbs x.den := if_neg hx
  rw [horder, abs_eq_natAbs_div]
  exact Decimal.orderOf_bounds (Int.natAbs_pos.mpr (Rat.num_ne_zero.mpr hx)) x.den_pos

/-- Shifting the decimal point by the decimal exponent leaves one digit before it. -/
theorem shift_ilog10_bounds {x : Rat} (hx : x ≠ 0) :
    1 ≤ |x * 10 ^ (-Scalar.ilog10 x)| ∧ |x * 10 ^ (-Scalar.ilog10 x)| < 10 := by
  obtain ⟨hlow, hhigh⟩ := ilog10_bounds hx
  have hpow : (0 : Rat) < 10 ^ Scalar.ilog10 x := zpow_pos (by norm_num) _
  have hsize : |x * 10 ^ (-Scalar.ilog10 x)| = |x| / 10 ^ Scalar.ilog10 x := by
    rw [zpow_neg, ← div_eq_mul_inv, abs_div, abs_of_pos hpow]
  rw [hsize]
  constructor
  · rwa [one_le_div hpow]
  · rwa [div_lt_iff₀ hpow, mul_comm, ← zpow_add_one₀ (by norm_num)]

end Exact
end Mensura
