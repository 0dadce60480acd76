import Mensura.Binary64.TenPower
import Mensura.Proofs.Binary64.Comparison
import Mensura.Proofs.Scalar.Order

/-!
# Shifting the decimal point of a double

A shift by at most twenty-two places is one multiplication or division by a power of ten that is
a double itself, so it rounds once (`toRat?_scale10`).  A decimal whose value is a whole number
below `2 ^ 53` is read as that number, however it is written (`toRat?_ofDecimal`).

For a double from a tenth up to `10 ^ 22` the decimal exponent is exactly the floor of the
logarithm (`ilog10_eq`): the logarithm computed with rounding may be one too large, but the shifted
number shows it.
-/

set_option autoImplicit false

namespace Mensura
namespace Binary64

variable {x : Float} {a : Rat}

/-! ## Shifts -/

theorem toRat?_tenPower {k : Nat} (hk : k ≤ 22) : toRat? (tenPower k) = some ((10 : Rat) ^ k) := by
  have hpos : (1 : Rat) ≤ 10 ^ k := one_le_pow₀ (by norm_num)
  have hle : (10 : Rat) ^ k ≤ 10 ^ 30 := pow_le_pow_right₀ (by norm_num) (by omega)
  have hvalue : ((Nat.pow 10 k : Nat) / (1 : Nat) : Rat) = 10 ^ k := by
    have hpow : Nat.pow 10 k = 10 ^ k := rfl
    rw [hpow]
    push_cast
    rw [div_one]
  have hrange : Normal ((Nat.pow 10 k : Nat) / (1 : Nat)) := by
    rw [hvalue]
    refine Normal.of_bounds ?_ ?_
    · rw [abs_of_pos (by linarith)]
      exact le_trans (by norm_num) hpos
    · rwa [abs_of_pos (by linarith)]
  rw [tenPower, toRat?_nearest Nat.one_pos (.inr hrange), hvalue, toDouble_ten_pow hk]
  simp

theorem toRat?_zero : toRat? 0 = some 0 := by
  decide +kernel

theorem beq_zero_eq_false (hx : toRat? x = some a) (ha : a ≠ 0) : (x == 0) = false := by
  rw [Bool.eq_false_iff, ne_eq, beq_iff hx toRat?_zero]
  exact ha

theorem scale10_zero_places (x : Float) : scale10 x 0 = x :=
  if_pos (by simp)

/-- A zero is not shifted. -/
theorem toRat?_scale10_of_zero (hx : toRat? x = some 0) (n : Int) :
    toRat? (scale10 x n) = some 0 := by
  rwa [scale10, if_pos (by simp [(beq_iff hx toRat?_zero).mpr rfl])]

/-- A shift by few enough places rounds once. -/
theorem toRat?_scale10 {n : Int} (hx : toRat? x = some a) (hn : |n| ≤ 22)
    (hrange : a = 0 ∨ Normal (a * 10 ^ n)) :
    toRat? (scale10 x n) = some (toDouble (a * 10 ^ n)) := by
  rcases eq_or_ne n 0 with rfl | hzero
  · rw [scale10_zero_places, zpow_zero, mul_one, toDouble_of_toRat? hx, hx]
  rcases hrange with rfl | hrange
  · rw [toRat?_scale10_of_zero hx, zero_mul, toDouble_zero]
  have hne := beq_zero_eq_false hx (left_ne_zero_of_mul hrange.ne_zero)
  obtain ⟨k, hk⟩ : ∃ k : Nat, n.natAbs = k + 1 := Nat.exists_eq_succ_of_ne_zero (by omega)
  have hsmall : k + 1 ≤ 22 := by
    rw [Int.abs_eq_natAbs] at hn
    omega
  have hsteps : fullSteps (k + 1) = 0 := by
    rw [fullSteps, exactTenPower]
    omega
  have hrest : restPlaces (k + 1) = k + 1 := by
    rw [restPlaces, exactTenPower]
    omega
  rw [scale10, if_neg (by simp [hzero, hne]), hk, hsteps, hrest, scaleUp, scaleDown]
  have hten := toRat?_tenPower hsmall
  split
  · next hpos =>
    have hpower : (10 : Rat) ^ n = 10 ^ (k + 1) := by
      rw [show n = ((k + 1 : Nat) : Int) by omega, zpow_natCast]
    rw [hpower] at hrange ⊢
    exact toRat?_mul hx hten (.inr hrange)
  · next hneg =>
    have hpower : a * (10 : Rat) ^ n = a / 10 ^ (k + 1) := by
      rw [show n = -((k + 1 : Nat) : Int) by omega, zpow_neg, zpow_natCast, div_eq_mul_inv]
    rw [hpower] at hrange ⊢
    exact toRat?_div hx hten (by positivity) (.inr hrange)

/-! ## Decimals -/

theorem shiftRatio_div (m : Nat) (e : Int) :
    0 < (Decimal.shiftRatio m 1 e).2 ∧
      ((Decimal.shiftRatio m 1 e).1 / (Decimal.shiftRatio m 1 e).2 : Rat) = m * 10 ^ e := by
  cases e with
  | ofNat k => simp [Decimal.shiftRatio]
  | negSucc k => simp [Decimal.shiftRatio, zpow_negSucc, div_eq_mul_inv]

/-- A decimal whose value is a whole number of few enough digits is read as it. -/
theorem toRat?_ofDecimal {m n : Nat} {e : Int} (hvalue : (m * 10 ^ e : Rat) = n) (hn : n < 2 ^ 53) :
    toRat? (ofDecimal m e) = some (n : Rat) := by
  have hten : (1 : Rat) < 10 := by norm_num
  rcases Nat.eq_zero_or_pos m with rfl | hm
  · rw [Nat.cast_zero, zero_mul] at hvalue
    rw [ofDecimal, if_pos rfl, toRat?_zero, hvalue]
  have hpos : (0 : Rat) < n := by
    rw [← hvalue]
    positivity
  have hone : (1 : Rat) ≤ n := by exact_mod_cast (by exact_mod_cast hpos : 0 < n)
  have hless : (n : Rat) < 10 ^ (16 : Int) := by
    exact_mod_cast hn.trans (by norm_num : 2 ^ 53 < 10 ^ 16)
  obtain ⟨hlow, hhigh⟩ := Decimal.log10_bounds hm
  have hlow' : (10 : Rat) ^ ((Decimal.log10 m : Int) + e) ≤ n := by
    rw [← hvalue, zpow_add₀ (by norm_num), zpow_natCast]
    exact mul_le_mul_of_nonneg_right (by exact_mod_cast hlow) (by positivity)
  have hhigh' : (n : Rat) < 10 ^ ((Decimal.log10 m : Int) + e + 1) := by
    rw [← hvalue, add_right_comm, zpow_add₀ (by norm_num)]
    exact mul_lt_mul_of_pos_right (by exact_mod_cast hhigh) (by positivity)
  have hsmall := (zpow_lt_zpow_iff_right₀ hten).mp (hlow'.trans_lt hless)
  have hlarge := (zpow_lt_zpow_iff_right₀ hten).mp ((zpow_zero _).trans_le hone |>.trans_lt hhigh')
  obtain ⟨hden, hquotient⟩ := shiftRatio_div m e
  have hrange : Normal ((Decimal.shiftRatio m 1 e).1 / (Decimal.shiftRatio m 1 e).2) := by
    rw [hquotient, hvalue]
    refine Normal.of_bounds ?_ ?_
    · rw [abs_of_pos hpos]
      exact le_trans (by norm_num) hone
    · rw [abs_of_pos hpos]
      exact hless.le.trans (by norm_num)
  rw [ofDecimal, if_neg hm.ne']
  dsimp only
  rw [if_neg (by omega), if_neg (by omega), toRat?_nearest hden (.inr hrange), hquotient, hvalue,
    toDouble_natCast hn]
  simp

/-! ## The decimal exponent -/

theorem reading_of_toRat? (hx : toRat? x = some a) :
    ∃ negative num den, reading x = .finite negative num den ∧ (num / den : Rat) = |a| := by
  rw [toRat?] at hx
  cases hr : reading x with
  | finite negative num den =>
    refine ⟨negative, num, den, rfl, ?_⟩
    rw [hr] at hx
    cases hx
    have hnonneg : (0 : Rat) ≤ num / den := by positivity
    cases negative <;> simp [Rat.mkRat_eq_div, abs_of_nonneg hnonneg]
  | infinite negative => rw [hr] at hx; cases hx
  | undefined => rw [hr] at hx; cases hx

/-- The logarithm computed with rounding is the order, or the next one. -/
theorem logFloor_cases (num den : Nat) :
    logFloor num den = Decimal.orderOf num den ∨
      logFloor num den = Decimal.orderOf num den + 1 := by
  simp only [logFloor]
  split
  · exact .inr rfl
  · left
    ring

/-- A power of ten bounds the order of a quotient from both sides. -/
theorem orderOf_eq {num den : Nat} {k : Int} (hnum : 0 < num) (hden : 0 < den)
    (hlow : (10 : Rat) ^ k ≤ num / den) (hhigh : (num / den : Rat) < 10 ^ (k + 1)) :
    Decimal.orderOf num den = k := by
  obtain ⟨hlow', hhigh'⟩ := Decimal.orderOf_bounds hnum hden
  have hle := (zpow_lt_zpow_iff_right₀ (by norm_num : (1 : Rat) < 10)).mp (hlow.trans_lt hhigh')
  have hge := (zpow_lt_zpow_iff_right₀ (by norm_num : (1 : Rat) < 10)).mp (hlow'.trans_lt hhigh)
  omega

theorem toRat?_one : toRat? 1 = some 1 := by
  decide +kernel

theorem toRat?_ten : toRat? 10 = some 10 := by
  decide +kernel

theorem one_le_abs_shifted {k : Int} (hlow : 10 ^ k ≤ |a|) (hhigh : |a| < 10 ^ (k + 1)) :
    1 ≤ |a * 10 ^ (-k)| ∧ |a * 10 ^ (-k)| < 10 := by
  have hten : (0 : Rat) < 10 ^ k := by positivity
  rw [abs_mul, abs_of_pos (by positivity : (0 : Rat) < 10 ^ (-k)), zpow_neg, ← div_eq_mul_inv,
    le_div_iff₀ hten, div_lt_iff₀ hten, one_mul, mul_comm, ← zpow_add_one₀ (by norm_num)]
  exact ⟨hlow, hhigh⟩

/-- Below a power of ten that is a double, rounding does not reach it. -/
theorem toDouble_abs_mul_lt {k : Int} {c : Rat} (ha : toDouble a = a) (hne : a ≠ 0)
    (hhigh : |a| < 10 ^ (k + 1)) (hk : -1 ≤ k) (hk' : k < 22) (hc : 0 < c) :
    toDouble (|a| * c) < 10 ^ (k + 1) * c := by
  obtain ⟨j, hj⟩ := Int.eq_ofNat_of_zero_le (show 0 ≤ k + 1 by omega)
  have hnext : toDouble (10 ^ (k + 1)) = 10 ^ (k + 1) := by
    rw [hj, zpow_natCast]
    exact toDouble_ten_pow (by omega)
  exact toDouble_mul_lt (abs_pos.mpr hne) hhigh (by rw [← abs_toDouble, ha]) hnext hc

/-- Moved behind its first digit, the point of a double leaves a number between one and ten. -/
theorem one_le_abs_toDouble_shifted {k : Int} (ha : toDouble a = a) (hlow : 10 ^ k ≤ |a|)
    (hhigh : |a| < 10 ^ (k + 1)) (hk : -1 ≤ k) (hk' : k < 22) :
    1 ≤ |toDouble (a * 10 ^ (-k))| ∧ |toDouble (a * 10 ^ (-k))| < 10 := by
  have hpower : (0 : Rat) < 10 ^ (-k) := by positivity
  have hne : a ≠ 0 := abs_pos.mp (hlow.trans_lt' (by positivity))
  have hless := toDouble_abs_mul_lt ha hne hhigh hk hk' hpower
  rw [← zpow_add₀ (by norm_num), show k + 1 + -k = 1 by ring, zpow_one] at hless
  rw [abs_toDouble]
  refine ⟨one_le_toDouble (one_le_abs_shifted hlow hhigh).1, ?_⟩
  rwa [abs_mul, abs_of_pos hpower]

/-- **The decimal exponent of a double is the floor of its logarithm**, as long as the powers of
ten on either side of it are doubles. -/
theorem ilog10_eq {k : Int} (hx : toRat? x = some a) (hlow : 10 ^ k ≤ |a|)
    (hhigh : |a| < 10 ^ (k + 1)) (hk : -1 ≤ k) (hk' : k < 22) : ilog10 x = k := by
  have hten : (10 : Rat) ≠ 0 := by norm_num
  have habs := toRat?_abs hx
  have hdouble := toDouble_of_toRat? hx
  have hpos : 0 < |a| := hlow.trans_lt' (by positivity)
  obtain ⟨negative, num, den, hreading, hquotient⟩ := reading_of_toRat? hx
  rw [← hquotient] at hpos
  have hnum : 0 < num := Nat.pos_of_ne_zero (by rintro rfl; simp at hpos)
  have hden : 0 < den := Nat.pos_of_ne_zero (by rintro rfl; simp at hpos)
  rw [hquotient] at hpos
  have horder : Decimal.orderOf num den = k :=
    orderOf_eq hnum hden (by rwa [hquotient]) (by rwa [hquotient])
  simp only [ilog10, hreading, if_neg hnum.ne']
  rcases logFloor_cases num den with hfloor | hfloor
  · obtain ⟨hlow', hhigh'⟩ := one_le_abs_shifted hlow hhigh
    obtain ⟨hone, hless⟩ := one_le_abs_toDouble_shifted hdouble hlow hhigh hk hk'
    have hsize : |a| * 10 ^ (-k) = |a * 10 ^ (-k)| := by
      rw [abs_mul, abs_of_pos (by positivity : (0 : Rat) < 10 ^ (-k))]
    have hshift := toRat?_scale10 (n := -k) habs (by rw [abs_le]; omega)
      (.inr (Normal.of_bounds (by rw [hsize, abs_abs]; linarith)
        (by rw [hsize, abs_abs]; linarith)))
    rw [hsize, ← abs_toDouble] at hshift
    rw [hfloor, horder, if_neg, if_neg]
    · rw [lt_iff hshift toRat?_one, not_lt]
      exact hone
    · rw [le_iff toRat?_ten hshift, not_le]
      exact hless
  · -- One place too far the number is below one, also after rounding.
    have hlow' : 1 / 10 ≤ |a| * 10 ^ (-(k + 1)) := by
      rw [zpow_neg, ← div_eq_mul_inv, le_div_iff₀ (by positivity), zpow_add₀ hten, zpow_one,
        mul_comm ((10 : Rat) ^ k), ← mul_assoc, one_div_mul_cancel hten, one_mul]
      exact hlow
    have hhigh' : |a| * 10 ^ (-(k + 1)) < 1 := by
      rw [zpow_neg, ← div_eq_mul_inv, div_lt_iff₀ (by positivity), one_mul]
      exact hhigh
    have hshift := toRat?_scale10 (n := -(k + 1)) habs (by rw [abs_le]; omega)
      (.inr (Normal.of_bounds (by rw [abs_of_pos (by linarith)]; linarith)
        (by rw [abs_of_pos (by linarith)]; linarith)))
    have hless := toDouble_abs_mul_lt hdouble (abs_pos.mp hpos) hhigh hk hk'
      (by positivity : (0 : Rat) < 10 ^ (-(k + 1)))
    rw [← zpow_add₀ hten, add_neg_cancel, zpow_zero] at hless
    rw [hfloor, horder, if_neg, if_pos]
    · ring
    · rw [lt_iff hshift toRat?_one]
      exact hless
    · rw [le_iff toRat?_ten hshift, not_le]
      linarith

end Binary64
end Mensura
