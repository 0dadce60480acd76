import Mathlib.Algebra.Order.Field.Rat
import Mathlib.Tactic.FieldSimp
import Mathlib.Tactic.Linarith
import Mathlib.Tactic.Positivity
import Mathlib.Tactic.Ring
import Mensura.Decimal.Log

/-!
# The decimal order of magnitude is the floor of the logarithm

`Decimal.log10` counts digits, so it is the exponent of the largest power of ten that is at most
a natural number.  `Decimal.orderOf` is the same for quotients: `orderOf_bounds` says that the
quotient lies between the power of ten with that exponent and the next one.
-/

set_option autoImplicit false

namespace Mensura
namespace Decimal

/-! ## Natural numbers -/

/-- With enough fuel, all digits but the first are counted. -/
theorem digitsAfterFirst_bounds {fuel n : Nat} (hn : 0 < n) (hfuel : n < 10 ^ (fuel + 1)) :
    10 ^ digitsAfterFirst fuel n ≤ n ∧ n < 10 ^ (digitsAfterFirst fuel n + 1) := by
  induction fuel generalizing n with
  | zero =>
    simp only [digitsAfterFirst]
    omega
  | succ fuel ih =>
    rw [digitsAfterFirst]
    split
    · omega
    · have hdiv : n / 10 < 10 ^ (fuel + 1) := by
        rw [Nat.div_lt_iff_lt_mul (by decide)]
        rwa [Nat.pow_succ] at hfuel
      obtain ⟨hlow, hhigh⟩ := ih (by omega) hdiv
      rw [Nat.pow_succ, Nat.pow_succ]
      rw [Nat.pow_succ] at hhigh
      omega

/-- A positive number lies between the power of ten of its order and the next one. -/
theorem log10_bounds {n : Nat} (hn : 0 < n) : 10 ^ log10 n ≤ n ∧ n < 10 ^ (log10 n + 1) := by
  refine digitsAfterFirst_bounds hn ?_
  have hlog : n < 2 ^ (n.log2 + 1) := Nat.lt_log2_self
  have hpow : 2 ^ (n.log2 + 1) ≤ 10 ^ (n.log2 + 1) := Nat.pow_le_pow_left (by decide) _
  have hmore : 10 ^ (n.log2 + 1) ≤ 10 ^ (n.log2 + 1 + 1) :=
    Nat.pow_le_pow_right (by decide) (Nat.le_succ _)
  omega

/-! ## Quotients -/

/-- A quotient lies between the power of ten of its order and the next one. -/
theorem orderOf_bounds {num den : Nat} (hnum : 0 < num) (hden : 0 < den) :
    (10 : Rat) ^ orderOf num den ≤ num / den ∧ (num / den : Rat) < 10 ^ (orderOf num den + 1) := by
  have hd : (0 : Rat) < den := by exact_mod_cast hden
  rw [le_div_iff₀ hd, div_lt_iff₀ hd]
  rw [orderOf]
  split
  · -- The integral part of the quotient has the same order.
    next h =>
    obtain ⟨hlow, hhigh⟩ := log10_bounds (Nat.div_pos h hden)
    rw [Nat.le_div_iff_mul_le hden] at hlow
    rw [Nat.div_lt_iff_lt_mul hden] at hhigh
    constructor
    · exact_mod_cast hlow
    · exact_mod_cast hhigh
  · -- The inverse has an integral part of order `k`, also if one less than `den` is divided.
    next h =>
    obtain ⟨hlow, hhigh⟩ := log10_bounds (Nat.div_pos (by omega : num ≤ den - 1) hnum)
    rw [Nat.le_div_iff_mul_le hnum] at hlow
    rw [Nat.div_lt_iff_lt_mul hnum] at hhigh
    generalize log10 ((den - 1) / num) = k at hlow hhigh
    have hlt : (10 ^ k * num : Rat) < den := by exact_mod_cast (by omega : 10 ^ k * num < den)
    have hle : (den : Rat) ≤ 10 ^ (k + 1) * num := by
      exact_mod_cast (by omega : den ≤ 10 ^ (k + 1) * num)
    have hnext : -((k : Int) + 1) + 1 = -k := by ring
    have hcast : (k : Int) + 1 = ((k + 1 : Nat) : Int) := by push_cast; rfl
    rw [hnext, hcast, zpow_neg, zpow_neg, zpow_natCast, zpow_natCast,
      inv_mul_le_iff₀ (by positivity), ← div_eq_inv_mul, lt_div_iff₀ (by positivity),
      mul_comm (num : Rat)]
    exact ⟨hle, hlt⟩

end Decimal
end Mensura
