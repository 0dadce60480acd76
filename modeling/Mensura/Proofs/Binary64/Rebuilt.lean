import Mathlib.Tactic.IntervalCases
import Mensura.Proofs.Binary64.Fraction
import Mensura.Proofs.Binary64.Scale

/-!
# Numbers multiplied out of mantissa and exponent

A number is held as a mantissa between one and ten and a power of ten.  Both steps, taking it apart
and multiplying it out again, round, so what comes back need not be the number that was written.

`rebuiltWhole` and `rebuiltFraction` are what comes back for a whole number and for a quotient of
two, in rational numbers and roundings.  A rebuilt fraction is always so close to the fraction that
it stands for no other one, and for this one exactly if it is the double nearest to it
(`rationalize?_rebuiltFraction`).
-/

set_option autoImplicit false

namespace Mensura
namespace Binary64

/-- The mantissa that a whole number is held with. -/
def wholeMantissa (n : Nat) : Rat :=
  toDouble (n / 10 ^ Decimal.log10 n)

/-- A whole number multiplied out of its mantissa and its power of ten. -/
def rebuiltWhole (n : Nat) : Rat :=
  toDouble (wholeMantissa n * 10 ^ Decimal.log10 n)

/-- A quotient of whole numbers multiplied out of its mantissa and its power of ten.  A quotient of
mantissas below one moves the point once more. -/
def rebuiltFraction (p q : Nat) : Rat :=
  let m := toDouble (wholeMantissa p / wholeMantissa q)
  let e := (Decimal.log10 p : Int) - Decimal.log10 q
  if m < 1 then toDouble (toDouble (m * 10) * 10 ^ (e - 1)) else toDouble (m * 10 ^ e)

/-! ## Whole numbers -/

theorem log10_le {n k : Nat} (hn : n < 10 ^ (k + 1)) : Decimal.log10 n ≤ k := by
  rcases Nat.eq_zero_or_pos n with rfl | hpos
  · exact Nat.zero_le k
  · have hlow := (Decimal.log10_bounds hpos).1
    exact Nat.lt_succ_iff.mp ((Nat.pow_lt_pow_iff_right (by norm_num)).mp (hlow.trans_lt hn))

theorem log10_le_of_lt {n : Nat} (hn : n < 2 ^ 53) : Decimal.log10 n ≤ 15 :=
  log10_le (hn.trans (by norm_num))

theorem wholeMantissa_zero : wholeMantissa 0 = 0 := by
  rw [wholeMantissa, Nat.cast_zero, zero_div, toDouble_zero]

/-- The mantissa of a whole number lies between one and ten: rounding does not carry it to ten. -/
theorem wholeMantissa_bounds {n : Nat} (hpos : 0 < n) (hn : n < 2 ^ 53) :
    1 ≤ wholeMantissa n ∧ wholeMantissa n < 10 := by
  obtain ⟨hlow, hhigh⟩ := Decimal.log10_bounds hpos
  have hlog := log10_le_of_lt hn
  have hsize : |(n : Rat)| = n := Nat.abs_cast n
  have hshifted := one_le_abs_toDouble_shifted (k := Decimal.log10 n) (toDouble_natCast hn)
    (by rw [hsize, zpow_natCast]; exact_mod_cast hlow) (by rw [hsize]; exact_mod_cast hhigh)
    (by omega) (by omega)
  have hpos' : (0 : Rat) < n / 10 ^ Decimal.log10 n := by positivity
  rw [zpow_neg, zpow_natCast, ← div_eq_mul_inv, abs_of_pos (toDouble_pos hpos')] at hshifted
  exact hshifted

theorem within_wholeMantissa {n : Nat} (hpos : 0 < n) :
    Within 1 (wholeMantissa n) (n / 10 ^ Decimal.log10 n) := by
  have hquotient : (0 : Rat) < n / 10 ^ Decimal.log10 n := by positivity
  exact (Within.refl hquotient).toDouble

/-- Numbers of few digits keep a distance from the next power of ten. -/
theorem wholeMantissa_le {n : Nat} (hpos : 0 < n) (hn : n ≤ 1000) : wholeMantissa n ≤ 9.995 := by
  have hlog : Decimal.log10 n ≤ 3 := log10_le (hn.trans_lt (by norm_num))
  have hhigh := (Decimal.log10_bounds hpos).2
  have hten : (0 : Rat) < 10 ^ Decimal.log10 n := by positivity
  have hquotient : (n / 10 ^ Decimal.log10 n : Rat) ≤ 9.99 := by
    rw [div_le_iff₀ hten]
    generalize Decimal.log10 n = k at *
    have hnat : 100 * n ≤ 999 * 10 ^ k := by
      interval_cases k <;> omega
    have hcast : (100 * n : Rat) ≤ 999 * 10 ^ k := by exact_mod_cast hnat
    linarith
  have herror := (abs_le.mp ((within_wholeMantissa hpos).abs_sub_le (by norm_num))).2
  norm_num at hquotient herror ⊢
  linarith

/-! ## Fractions -/

section Fractions

variable {p q : Nat}

/-- Nothing is divided by one. -/
theorem rebuiltFraction_one (hp : 0 < p) (hp' : p < 2 ^ 53) :
    rebuiltFraction p 1 = rebuiltWhole p := by
  have hlog : Decimal.log10 1 = 0 := rfl
  have hone : wholeMantissa 1 = 1 := by
    rw [wholeMantissa, hlog, pow_zero, div_one, toDouble_natCast (by norm_num), Nat.cast_one]
  have hdouble : toDouble (wholeMantissa p) = wholeMantissa p :=
    toDouble_toDouble (by positivity)
  have hlow := (wholeMantissa_bounds hp hp').1
  rw [rebuiltFraction, hone, div_one, hdouble, if_neg (not_lt.mpr hlow), hlog, Nat.cast_zero,
    sub_zero, zpow_natCast, rebuiltWhole]

theorem rebuiltFraction_within (hp : 0 < p) (hq : 0 < q) :
    ∃ k ≤ 10, Within k (rebuiltFraction p q) (p / q) := by
  have hten : (10 : Rat) ≠ 0 := by norm_num
  have hquotient := ((within_wholeMantissa hp).div (within_wholeMantissa hq)).toDouble
  rw [rebuiltFraction]
  split
  · have hresult := ((hquotient.mul (by norm_num : (0 : Rat) < 10)).toDouble.mul
      (by positivity : (0 : Rat) < 10 ^ ((Decimal.log10 p : Int) - Decimal.log10 q - 1))).toDouble
    refine ⟨5, by norm_num, ?_⟩
    convert hresult using 1
    rw [zpow_sub₀ hten, zpow_sub₀ hten, zpow_natCast, zpow_natCast, zpow_one]
    field_simp
  · have hresult := (hquotient.mul
      (by positivity : (0 : Rat) < 10 ^ ((Decimal.log10 p : Int) - Decimal.log10 q))).toDouble
    refine ⟨4, by norm_num, ?_⟩
    convert hresult using 1
    rw [zpow_sub₀ hten, zpow_natCast, zpow_natCast]
    field_simp

/-- What comes back of a fraction is close to it. -/
theorem abs_rebuiltFraction_sub_le (hp : 0 < p) (hq : 0 < q) :
    |rebuiltFraction p q - p / q| ≤ p / q / 10 ^ 14 := by
  obtain ⟨k, hk, hwithin⟩ := rebuiltFraction_within hp hq
  exact hwithin.abs_sub_le hk

/-- A sign in front of a fraction and of what comes back of it. -/
theorem abs_signed_sub {s : Int} (hs : |s| = 1) (r : Rat) :
    |s * r - ((s * p : Int) : Rat) / q| = |r - p / q| := by
  have hcast : |(s : Rat)| = 1 := by exact_mod_cast hs
  rw [Int.cast_mul, Int.cast_natCast, mul_div_assoc, ← mul_sub, abs_mul, hcast, one_mul]

theorem toDouble_signed {s : Int} (hs : |s| = 1) (r : Rat) : toDouble (s * r) = s * toDouble r := by
  rcases (abs_eq zero_le_one).mp hs with rfl | rfl
  · simp
  · simp [toDouble_neg]

/-- The distance is far below that of fractions with small denominators. -/
theorem mul_abs_rebuiltFraction_sub_lt {s : Int} (hs : |s| = 1) (hp : 0 < p) (hp' : p ≤ 1000)
    (hq : 0 < q) :
    2 * q * 1000000 * |s * rebuiltFraction p q - ((s * p : Int) : Rat) / q| < 1 := by
  have hqr : (0 : Rat) < q := by exact_mod_cast hq
  have hpr : (p : Rat) ≤ 1000 := by exact_mod_cast hp'
  rw [abs_signed_sub hs]
  calc (2 * q * 1000000 : Rat) * |rebuiltFraction p q - p / q|
      ≤ 2 * q * 1000000 * (p / q / 10 ^ 14) :=
        mul_le_mul_of_nonneg_left (abs_rebuiltFraction_sub_le hp hq) (by positivity)
    _ = 2 * p / 10 ^ 8 := by field_simp; norm_num
    _ < 1 := by norm_num; linarith

/-- **What comes back of a fraction is recognised as it exactly if it is the double nearest to it**,
and otherwise as no fraction at all. -/
theorem rationalize?_rebuiltFraction {x : Float} {s : Int} (hs : |s| = 1)
    (hx : toRat? x = some (s * rebuiltFraction p q)) (hp : 0 < p) (hp' : p ≤ 1000) (hq : 0 < q)
    (hq' : q ≤ 1000) :
    rationalize? 1000000 x =
      if toDouble (p / q) = rebuiltFraction p q then some (((s * p : Int) : Rat) / q)
      else none := by
  have hpr : (1 : Rat) ≤ p := by exact_mod_cast hp
  have hqr : (1 : Rat) ≤ q := by exact_mod_cast hq
  have hpr' : (p : Rat) ≤ 1000 := by exact_mod_cast hp'
  have hqr' : (q : Rat) ≤ 1000 := by exact_mod_cast hq'
  have hs' : |(s : Rat)| = 1 := by exact_mod_cast hs
  have hsplit : ((s * p : Int) : Rat) / q = s * (p / q) := by push_cast; ring
  have habs : |((s * p : Int) : Rat) / q| = p / q := by
    rw [hsplit, abs_mul, hs', one_mul, abs_of_pos (by positivity)]
  have hrange : Normal (((s * p : Int) : Rat) / q) := by
    refine Normal.of_bounds ?_ ?_
    · rw [habs, div_le_div_iff₀ (by norm_num) (by linarith)]
      linarith
    · rw [habs, div_le_iff₀ (by linarith)]
      linarith
  have hclose := mul_abs_rebuiltFraction_sub_lt hs hp hp' hq
  rw [rationalize?_eq hx hq (by omega) (by exact_mod_cast hclose) hrange, hsplit,
    toDouble_signed hs]
  have hs0 : (s : Rat) ≠ 0 := by
    rintro h
    simp [h] at hs'
  simp only [mul_right_inj' hs0]

/-- What comes back of a fraction is no whole number. -/
theorem rebuiltFraction_ne_intCast {s : Int} (hs : |s| = 1) (hp : 0 < p) (hp' : p ≤ 1000)
    (hq : 2 ≤ q) (hcoprime : p.Coprime q) (n : Int) : (s * rebuiltFraction p q : Rat) ≠ n := by
  intro h
  have hqr : (0 : Rat) < q := by exact_mod_cast (by omega : 0 < q)
  have hne : (n : Rat) / (1 : Nat) ≠ ((s * p : Int) : Rat) / q := by
    intro hequal
    rw [Nat.cast_one, div_one, eq_div_iff hqr.ne'] at hequal
    have hint : n * q = s * p := by exact_mod_cast hequal
    have hnat : n.natAbs * q = p := by
      have habs := congrArg Int.natAbs hint
      have hunit : s.natAbs = 1 := by
        rw [Int.abs_eq_natAbs] at hs
        exact_mod_cast hs
      rwa [Int.natAbs_mul, Int.natAbs_mul, hunit, one_mul, Int.natAbs_natCast,
        Int.natAbs_natCast] at habs
    have hone : q = 1 := hcoprime.symm.eq_one_of_dvd ⟨n.natAbs, by rw [← hnat, Nat.mul_comm]⟩
    omega
  have hapart := one_le_mul_abs_sub Nat.one_pos (by omega) hne
  have hclose := mul_abs_rebuiltFraction_sub_lt hs hp hp' (by omega : 0 < q)
  rw [h] at hclose
  rw [Nat.cast_one, one_mul, div_one] at hapart
  have hnonneg : (0 : Rat) ≤ q * |(n : Rat) - ((s * p : Int) : Rat) / q| := by positivity
  linarith

end Fractions

end Binary64
end Mensura
