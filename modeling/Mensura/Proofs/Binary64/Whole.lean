import Mensura.Proofs.Binary64.Integer
import Mensura.Proofs.Binary64.Places

/-!
# Whole numbers held as mantissa and power of ten

Shifting the decimal point rounds, except where the result is a whole number that is not too large:
`x · 10 ^ e` is then exactly what the shift answers (`toRat?_scale10_whole`), however many places it
is.  To the right, the factors of five alone leave at most twenty-two places; to the left, every
step of the shift divides exactly, since a whole number times a power of ten that is a double is
one without that power as well.
-/

set_option autoImplicit false

namespace Mensura
namespace Binary64

variable {x : Float} {a : Rat}

/-- An equation with a power of two, without fractions. -/
theorem exists_clear_two_pow {m n : Nat} {e : Int} (h : (m : Rat) = n * 2 ^ e) :
    ∃ i j : Nat, m * 2 ^ j = n * 2 ^ i := by
  cases e with
  | ofNat i =>
    refine ⟨i, 0, ?_⟩
    rw [Int.ofNat_eq_natCast, zpow_natCast] at h
    rw [pow_zero, mul_one]
    exact_mod_cast h
  | negSucc j =>
    refine ⟨0, j + 1, ?_⟩
    rw [zpow_negSucc, ← div_eq_mul_inv, eq_div_iff (by positivity)] at h
    rw [pow_zero, mul_one]
    exact_mod_cast h

/-- The digits of a double, and the power of two behind them. -/
theorem exists_digits_of_toRat? (hx : toRat? x = some a) :
    ∃ (m : Nat) (e : Int), m < 2 ^ 53 ∧ |a| = m * 2 ^ e := by
  rcases exists_unpack_of_toRat? hx with ⟨s, -, rfl⟩ | ⟨s, m, e, -, -, hc, rfl⟩
  · exact ⟨0, 0, by norm_num, by simp⟩
  · refine ⟨m, e, hc.lt, ?_⟩
    rw [apply_eq, abs_mul, abs_mul, abs_unit, one_mul, Nat.abs_cast, abs_of_pos (by positivity)]

/-- A whole number times a power of ten has at least the digits of the whole number. -/
theorem exists_digits_of_mul_ten_pow {w m k : Nat} {e : Int} (hw : 0 < w)
    (h : (w * 10 ^ k : Rat) = m * 2 ^ e) : ∃ p l : Nat, p ≤ m ∧ w = p * 2 ^ l := by
  obtain ⟨l, p, hodd, rfl⟩ := Nat.exists_eq_two_pow_mul_odd hw.ne'
  obtain ⟨i, j, hclear⟩ := exists_clear_two_pow (m := 2 ^ l * p * 10 ^ k) (by exact_mod_cast h)
  have hdvd : p ∣ m * 2 ^ i := by
    rw [← hclear]
    exact ((Dvd.intro_left _ rfl).mul_right _).mul_right _
  have hm : 0 < m := by
    rcases Nat.eq_zero_or_pos m with rfl | hm
    · rw [zero_mul] at hclear
      have : 0 < 2 ^ l * p * 10 ^ k * 2 ^ j := by positivity
      omega
    · exact hm
  have hcoprime : Nat.Coprime p (2 ^ i) := (Nat.coprime_two_right.mpr hodd).pow_right i
  exact ⟨p, l, Nat.le_of_dvd hm (hcoprime.dvd_of_dvd_mul_right hdvd), mul_comm _ _⟩

/-- If a whole number times a power of ten is a double, so is the whole number. -/
theorem toDouble_of_mul_ten_pow {w : Int} {k : Nat} (hx : toRat? x = some ((w : Rat) * 10 ^ k)) :
    toDouble w = w := by
  rcases eq_or_ne w 0 with rfl | hw
  · rw [Int.cast_zero, toDouble_zero]
  obtain ⟨m, e, hm, hdigits⟩ := exists_digits_of_toRat? hx
  have habs : (w.natAbs * 10 ^ k : Rat) = m * 2 ^ e := by
    rw [← hdigits, natAbs_cast_eq_abs, abs_mul, abs_of_pos (by positivity : (0 : Rat) < 10 ^ k)]
  obtain ⟨p, l, hp, hnat⟩ := exists_digits_of_mul_ten_pow (Int.natAbs_pos.mpr hw) habs
  have hexact : (w : Rat) = (w.sign * p : Int) * 2 ^ (l : Int) := by
    rw [intCast_eq_sign_mul, hnat, zpow_natCast]
    push_cast
    ring
  have hsmall : |w.sign * (p : Int)| < 2 ^ 53 := by
    rw [abs_mul, abs_sign_of_ne_zero hw, one_mul, Nat.abs_cast]
    exact_mod_cast hp.trans_lt hm
  rw [hexact]
  exact toDouble_of_digits hsmall

/-! ## To the left -/

theorem one_le_abs_of_ne_zero {w : Int} (hw : w ≠ 0) : (1 : Rat) ≤ |(w : Rat)| := by
  exact_mod_cast Int.one_le_abs hw

/-- What is a whole number behind a division by a power of ten is divided exactly. -/
theorem toRat?_div_tenPower_whole {w : Int} {k : Nat} (hk : k ≤ 22)
    (hx : toRat? x = some ((w : Rat) * 10 ^ k)) : toRat? (x / tenPower k) = some (w : Rat) := by
  have hten : (1 : Rat) ≤ 10 ^ k := one_le_pow₀ (by norm_num)
  have hquotient : (w * 10 ^ k / 10 ^ k : Rat) = w := by
    rw [mul_div_assoc, div_self (by positivity), mul_one]
  have hnearest : nearestDouble w = w := by
    rcases eq_or_ne w 0 with rfl | hw
    · rw [Int.cast_zero, nearestDouble_zero]
    · have hleast : (2 : Rat) ^ (-1022 : Int) ≤ |(w : Rat)| :=
        (zpow_le_one_of_nonpos₀ (by norm_num) (by norm_num)).trans (one_le_abs_of_ne_zero hw)
      rw [nearestDouble_of_le hleast, toDouble_of_mul_ten_pow hx]
  have hless : |(w : Rat)| < 2 ^ (1024 : Int) := by
    refine lt_of_le_of_lt ?_ (abs_lt_of_toRat? hx)
    rw [abs_mul, abs_of_pos (by positivity : (0 : Rat) < 10 ^ k)]
    exact le_mul_of_one_le_right (abs_nonneg _) hten
  rw [toRat?_div_eq hx (toRat?_tenPower hk) (by positivity), hquotient, hnearest]
  exact finite_eq_some.mpr ⟨rfl, hless⟩

theorem toRat?_scaleDown_whole (steps : Nat) {w : Int}
    (hx : toRat? x = some ((w : Rat) * 10 ^ (22 * steps))) :
    toRat? (scaleDown steps x) = some (w : Rat) := by
  induction steps generalizing x with
  | zero => rwa [Nat.mul_zero, pow_zero, mul_one] at hx
  | succ steps ih =>
    have hpart : (w * 10 ^ (22 * (steps + 1)) : Rat) =
        (w * 10 ^ (22 * steps) : Int) * 10 ^ 22 := by
      push_cast
      ring
    rw [hpart] at hx
    have hstep := toRat?_div_tenPower_whole le_rfl hx
    push_cast at hstep
    exact ih hstep

/-- A double has no more than three hundred and eight zeros before the point. -/
theorem le_of_mul_ten_pow {w : Int} (hw : w ≠ 0) {n : Nat}
    (hx : toRat? x = some ((w : Rat) * 10 ^ n)) : n ≤ 308 := by
  by_contra hlarge
  have hpower : (10 : Rat) ^ 309 ≤ 10 ^ n := pow_le_pow_right₀ (by norm_num) (by omega)
  have hsize := abs_lt_of_toRat? hx
  rw [abs_mul, abs_of_pos (by positivity : (0 : Rat) < 10 ^ n)] at hsize
  have hleast : (10 : Rat) ^ n ≤ |(w : Rat)| * 10 ^ n :=
    le_mul_of_one_le_left (by positivity) (one_le_abs_of_ne_zero hw)
  have hgreatest : (10 : Rat) ^ 309 * (9 / 10) ≤ 10 ^ 309 :=
    mul_le_of_le_one_right (by positivity) (by norm_num)
  exact absurd hsize
    (two_pow_1024_le.trans (hgreatest.trans (hpower.trans hleast))).not_gt

/-- A shift to the left that leaves a whole number is exact. -/
theorem toRat?_scale10_neg_whole {w : Int} (hw : w ≠ 0) {n : Nat} (hn : 0 < n)
    (hx : toRat? x = some ((w : Rat) * 10 ^ n)) : toRat? (scale10 x (-n)) = some (w : Rat) := by
  have hcast : (w : Rat) ≠ 0 := by exact_mod_cast hw
  have hzero := beq_zero_eq_false hx (by positivity)
  obtain ⟨-, hplaces, -⟩ := roundings_eq hn ((le_of_mul_ten_pow hw hx).trans (by norm_num))
  have hpart : (w * 10 ^ n : Rat) =
      (w * 10 ^ restPlaces n : Int) * 10 ^ (22 * fullSteps n) := by
    push_cast
    rw [mul_assoc, ← pow_add, ← add_comm (22 * fullSteps n), ← hplaces]
  have hrest : restPlaces n ≤ 22 := by
    rw [restPlaces, exactTenPower]
    omega
  rw [hpart] at hx
  have hfull := toRat?_scaleDown_whole _ hx
  push_cast at hfull
  rw [scale10_of_neg hzero hn]
  exact toRat?_div_tenPower_whole hrest hfull

/-! ## To the right -/

/-- The factors of five of a small whole number: a shift of a double to the right that leaves it is
one by at most twenty-two places. -/
theorem le_of_mul_ten_pow_eq {w : Int} (hw : w ≠ 0) (hsmall : |w| < 2 ^ 53) {n : Nat}
    (hx : toRat? x = some a) (h : a * 10 ^ n = w) : n ≤ 22 := by
  obtain ⟨m, e, -, hdigits⟩ := exists_digits_of_toRat? hx
  have habs : (w.natAbs : Rat) = (m * 10 ^ n : Nat) * 2 ^ e := by
    rw [natAbs_cast_eq_abs, ← h, abs_mul, hdigits, abs_of_pos (by positivity : (0 : Rat) < 10 ^ n)]
    push_cast
    ring
  obtain ⟨i, j, hclear⟩ := exists_clear_two_pow habs
  have hdvd : 5 ^ n ∣ w.natAbs := by
    have hcoprime : Nat.Coprime (5 ^ n) (2 ^ j) := Nat.Coprime.pow n j (by decide)
    refine hcoprime.dvd_of_dvd_mul_right ?_
    rw [hclear]
    exact ((pow_dvd_pow_of_dvd (by decide) n).mul_left m).mul_right _
  by_contra hlarge
  have hle : 5 ^ 23 ≤ w.natAbs := (Nat.pow_le_pow_right (by norm_num) (by omega)).trans
    (Nat.le_of_dvd (Int.natAbs_pos.mpr hw) hdvd)
  rw [Int.abs_eq_natAbs] at hsmall
  omega

/-- **A shift that leaves a small whole number is exact.** -/
theorem toRat?_scale10_whole {w e : Int} (hsmall : |w| < 2 ^ 53) (hx : toRat? x = some a)
    (h : a * 10 ^ e = w) : toRat? (scale10 x e) = some (w : Rat) := by
  rcases eq_or_ne w 0 with rfl | hw
  · rw [Int.cast_zero, mul_eq_zero] at h
    obtain rfl : a = 0 := h.resolve_right (by positivity)
    rw [Int.cast_zero]
    exact toRat?_scale10_of_zero hx e
  obtain ⟨n, rfl | rfl⟩ := e.eq_nat_or_neg
  · rw [zpow_natCast] at h
    have hn : |(n : Int)| ≤ 22 := by
      rw [Nat.abs_cast]
      exact_mod_cast le_of_mul_ten_pow_eq hw hsmall hx h
    have hone := one_le_abs_of_ne_zero hw
    have hless : |(w : Rat)| < 2 ^ 53 := by exact_mod_cast hsmall
    have hrange : Normal (a * 10 ^ (n : Int)) := by
      rw [zpow_natCast, h]
      exact .of_bounds (by linarith) (by linarith)
    have hexact : toDouble w = w := by simpa using toDouble_of_digits (e := 0) hsmall
    rw [toRat?_scale10 hx hn (.inr hrange), zpow_natCast, h, hexact]
  · rcases Nat.eq_zero_or_pos n with rfl | hn
    · rw [Nat.cast_zero, neg_zero, zpow_zero, mul_one] at h
      rw [Nat.cast_zero, neg_zero, scale10_zero_places, hx, h]
    · rw [zpow_neg, zpow_natCast, ← div_eq_mul_inv, div_eq_iff (by positivity)] at h
      exact toRat?_scale10_neg_whole hw hn (h ▸ hx)

end Binary64
end Mensura
