import Mathlib.Algebra.Order.Field.Power
import Mathlib.Algebra.Order.Field.Rat
import Mathlib.Data.Int.Log
import Mathlib.Data.Rat.Floor
import Mathlib.Tactic.FieldSimp
import Mathlib.Tactic.Linarith
import Mathlib.Tactic.Positivity
import Mathlib.Tactic.Ring
import Mensura.Binary64.Basic

/-!
# Rounding to doubles, on rational numbers

`toDouble r` is the double nearest to `r`, as a rational number and as if the range of doubles had
no ends: fifty-three binary digits, halves to the even neighbour.  What the arithmetic of doubles
comes to is proved elsewhere; here is what rounding does to numbers.

* `abs_toDouble_sub_le`: the relative error is at most `2 ^ -53`.
* `toDouble_of_digits`: what has at most fifty-three binary digits is not changed.
* `le_toDouble`, `toDouble_le`: rounding does not cross a double.
-/

set_option autoImplicit false

namespace Mensura

/-! ## Rounding to integers -/

namespace Decimal

/-- The nearest integer is one of those on either side. -/
theorem roundHalfEven_cases (num den : Nat) :
    (roundHalfEven num den = num / den ∧ 2 * (num % den) ≤ den) ∨
      (roundHalfEven num den = num / den + 1 ∧ den ≤ 2 * (num % den)) := by
  rw [roundHalfEven]
  split
  · next h => exact .inl ⟨rfl, Nat.le_of_lt h⟩
  split
  · next h => exact .inr ⟨rfl, Nat.le_of_lt h⟩
  split
  · exact .inl ⟨rfl, by omega⟩
  · exact .inr ⟨rfl, by omega⟩

theorem le_roundHalfEven {num den n : Nat} (hden : 0 < den) (h : n * den ≤ num) :
    n ≤ roundHalfEven num den := by
  have hdiv : n ≤ num / den := (Nat.le_div_iff_mul_le hden).mpr h
  rcases roundHalfEven_cases num den with ⟨hr, -⟩ | ⟨hr, -⟩ <;> omega

theorem roundHalfEven_le {num den n : Nat} (hden : 0 < den) (h : num ≤ n * den) :
    roundHalfEven num den ≤ n := by
  have hsplit := Nat.div_add_mod num den
  have hdiv : num / den ≤ n :=
    (Nat.div_le_iff_le_mul_add_pred hden).mpr (by rw [Nat.mul_comm]; omega)
  rcases roundHalfEven_cases num den with ⟨hr, -⟩ | ⟨hr, hhalf⟩
  · omega
  · -- If the quotient reached `n`, nothing would be left over to round up.
    rcases Nat.lt_or_ge (num / den) n with hlt | hge
    · omega
    · have hmul : den * n ≤ den * (num / den) := Nat.mul_le_mul_left den hge
      have hcomm : den * n = n * den := Nat.mul_comm _ _
      omega

/-- Rounding moves by a half at most. -/
theorem abs_roundHalfEven_sub_le (num : Nat) {den : Nat} (hden : 0 < den) :
    |(roundHalfEven num den : Rat) - num / den| ≤ 1 / 2 := by
  have hd : (0 : Rat) < den := by exact_mod_cast hden
  have hsplit : (num : Rat) = den * (num / den : Nat) + (num % den : Nat) := by
    exact_mod_cast (Nat.div_add_mod num den).symm
  have hquotient : (num : Rat) / den = (num / den : Nat) + ((num % den : Nat) : Rat) / den := by
    rw [hsplit, add_div, mul_div_cancel_left₀ _ hd.ne']
  have hlt : ((num % den : Nat) : Rat) / den ≤ 1 := by
    rw [div_le_one hd]
    exact_mod_cast (Nat.mod_lt _ hden).le
  rw [hquotient, abs_le]
  rcases roundHalfEven_cases num den with ⟨hr, hhalf⟩ | ⟨hr, hhalf⟩
  · have hle : ((num % den : Nat) : Rat) / den ≤ 1 / 2 := by
      rw [div_le_div_iff₀ hd (by norm_num)]
      exact_mod_cast (by omega : num % den * 2 ≤ 1 * den)
    have hnonneg : (0 : Rat) ≤ ((num % den : Nat) : Rat) / den := by positivity
    rw [hr]
    constructor <;> linarith
  · have hge : 1 / 2 ≤ ((num % den : Nat) : Rat) / den := by
      rw [div_le_div_iff₀ (by norm_num) hd]
      exact_mod_cast (by omega : 1 * den ≤ num % den * 2)
    rw [hr]
    push_cast
    constructor <;> linarith

theorem roundHalfEven_one (n : Nat) : roundHalfEven n 1 = n := by
  simp [roundHalfEven, Nat.mod_one]

/-- The nearest integer is that of the value, however the quotient is written. -/
theorem roundHalfEven_mul (c num den : Nat) (hc : 0 < c) :
    roundHalfEven (c * num) (c * den) = roundHalfEven num den := by
  have hmod : c * num % (c * den) = c * (num % den) := Nat.mul_mod_mul_left c num den
  have hdiv : c * num / (c * den) = num / den := Nat.mul_div_mul_left num den hc
  have htwice : 2 * (c * (num % den)) = c * (2 * (num % den)) := by ring
  rw [roundHalfEven, roundHalfEven]
  simp only [hmod, hdiv, htwice, Nat.mul_lt_mul_left hc]

theorem roundHalfEven_congr {num den num' den' : Nat} (hden : 0 < den) (hden' : 0 < den')
    (h : (num : Rat) / den = num' / den') :
    roundHalfEven num den = roundHalfEven num' den' := by
  have hcross : num * den' = num' * den := by
    rw [div_eq_div_iff (by exact_mod_cast hden.ne') (by exact_mod_cast hden'.ne')] at h
    exact_mod_cast h
  rw [← roundHalfEven_mul den' num den hden', ← roundHalfEven_mul den num' den' hden,
    Nat.mul_comm den' num, hcross, Nat.mul_comm num' den, Nat.mul_comm den' den]

end Decimal

/-! ## Rounding to fifty-three binary digits -/

namespace Binary64

/-- The unit of the last of the fifty-three binary digits of `r`. -/
def lastPlace (r : Rat) : Rat :=
  2 ^ (Int.log 2 |r| - 52)

/-- The size of `r` in units of its last place, rounded to an integer. -/
def roundedDigits (r : Rat) : Nat :=
  Decimal.roundHalfEven (|r| / lastPlace r).num.natAbs (|r| / lastPlace r).den

/-- The double nearest to `r`, were the range of the doubles unlimited. -/
def toDouble (r : Rat) : Rat :=
  (if r < 0 then -1 else 1) * (roundedDigits r * lastPlace r)

theorem lastPlace_pos (r : Rat) : 0 < lastPlace r := by
  rw [lastPlace]
  positivity

theorem lastPlace_neg (r : Rat) : lastPlace (-r) = lastPlace r := by
  rw [lastPlace, lastPlace, abs_neg]

theorem two_pow_52_le_div_lastPlace {r : Rat} (hr : r ≠ 0) : 2 ^ 52 ≤ |r| / lastPlace r := by
  have hlog : (2 : Rat) ^ Int.log 2 |r| ≤ |r| :=
    Int.zpow_log_le_self (by norm_num) (abs_pos.mpr hr)
  have hsplit : (2 : Rat) ^ Int.log 2 |r| = 2 ^ 52 * lastPlace r := by
    rw [lastPlace, zpow_sub₀ (by norm_num)]
    norm_num
    ring
  rw [le_div_iff₀ (lastPlace_pos r), ← hsplit]
  exact hlog

theorem div_lastPlace_lt (r : Rat) : |r| / lastPlace r < 2 ^ 53 := by
  have hlog : |r| < (2 : Rat) ^ (Int.log 2 |r| + 1) :=
    Int.lt_zpow_succ_log_self (by norm_num) |r|
  have hsplit : (2 : Rat) ^ (Int.log 2 |r| + 1) = 2 ^ 53 * lastPlace r := by
    rw [lastPlace, show Int.log 2 |r| + 1 = (Int.log 2 |r| - 52) + 53 by ring,
      zpow_add₀ (by norm_num)]
    norm_num
    ring
  rw [div_lt_iff₀ (lastPlace_pos r), ← hsplit]
  exact hlog

theorem mul_lastPlace_le {r : Rat} (hr : 0 < r) : 2 ^ 52 * lastPlace r ≤ r := by
  have hquotient := two_pow_52_le_div_lastPlace hr.ne'
  rwa [le_div_iff₀ (lastPlace_pos r), abs_of_pos hr] at hquotient

theorem lt_mul_lastPlace {r : Rat} (hr : 0 < r) : r < 2 ^ 53 * lastPlace r := by
  have hquotient := div_lastPlace_lt r
  rwa [div_lt_iff₀ (lastPlace_pos r), abs_of_pos hr] at hquotient

/-- Digits and unit determine each other: a quotient of fifty-three digits times a power of two
can only be taken apart in one way. -/
theorem lastPlace_of_digits {r : Rat} {q : Rat} {e : Int} (hr : |r| = q * 2 ^ e)
    (hlow : 2 ^ 52 ≤ q) (hhigh : q < 2 ^ 53) : lastPlace r = 2 ^ e := by
  have hpos : 0 < |r| := by rw [hr]; positivity
  have hlog : Int.log 2 |r| = e + 52 := by
    apply le_antisymm
    · apply Int.lt_add_one_iff.mp
      rw [← Int.lt_zpow_iff_log_lt (by norm_num) hpos, hr]
      push_cast
      rw [show e + 52 + 1 = 53 + e by ring, zpow_add₀ (by norm_num)]
      exact mul_lt_mul_of_pos_right (by exact_mod_cast hhigh) (by positivity)
    · rw [← Int.zpow_le_iff_le_log (by norm_num) hpos, hr]
      push_cast
      rw [show e + 52 = 52 + e by ring, zpow_add₀ (by norm_num)]
      exact mul_le_mul_of_nonneg_right (by exact_mod_cast hlow) (by positivity)
  rw [lastPlace, hlog]
  congr 1
  ring

/-- The numerator of a positive rational number over its denominator, in natural numbers. -/
theorem natAbs_num_div_den {q : Rat} (hq : 0 ≤ q) : (q.num.natAbs : Rat) / q.den = q := by
  have hnum : ((q.num.natAbs : Int) : Rat) = q.num := by
    rw [Int.natAbs_of_nonneg (Rat.num_nonneg.mpr hq)]
  rw [← Int.cast_natCast, hnum]
  exact q.num_div_den

/-- The rounded digits, however the quotient in units of the last place is written. -/
theorem roundedDigits_eq {r : Rat} {num den : Nat} (hden : 0 < den)
    (h : |r| / lastPlace r = num / den) : roundedDigits r = Decimal.roundHalfEven num den := by
  rw [roundedDigits]
  refine Decimal.roundHalfEven_congr (Rat.den_pos _) hden ?_
  rw [natAbs_num_div_den (div_nonneg (abs_nonneg r) (lastPlace_pos r).le), h]

theorem le_roundedDigits {r : Rat} (hr : r ≠ 0) : 2 ^ 52 ≤ roundedDigits r := by
  refine Decimal.le_roundHalfEven (Rat.den_pos _) ?_
  have hq := two_pow_52_le_div_lastPlace hr
  rw [← natAbs_num_div_den (div_nonneg (abs_nonneg r) (lastPlace_pos r).le),
    le_div_iff₀ (by exact_mod_cast Rat.den_pos _)] at hq
  exact_mod_cast hq

theorem roundedDigits_le (r : Rat) : roundedDigits r ≤ 2 ^ 53 := by
  refine Decimal.roundHalfEven_le (Rat.den_pos _) ?_
  have hq := (div_lastPlace_lt r).le
  rw [← natAbs_num_div_den (div_nonneg (abs_nonneg r) (lastPlace_pos r).le),
    div_le_iff₀ (by exact_mod_cast Rat.den_pos _)] at hq
  exact_mod_cast hq

theorem abs_roundedDigits_sub_le (r : Rat) : |roundedDigits r - |r| / lastPlace r| ≤ 1 / 2 := by
  have hround := Decimal.abs_roundHalfEven_sub_le (|r| / lastPlace r).num.natAbs
    (Rat.den_pos (|r| / lastPlace r))
  rw [natAbs_num_div_den (div_nonneg (abs_nonneg r) (lastPlace_pos r).le)] at hround
  exact hround

theorem toDouble_zero : toDouble 0 = 0 := by
  have hzero : roundedDigits 0 = 0 := by
    have hquotient : |0| / lastPlace 0 = (0 : Nat) / (1 : Nat) := by simp
    rw [roundedDigits_eq Nat.one_pos hquotient]
    rfl
  rw [toDouble, hzero]
  simp

theorem toDouble_neg (r : Rat) : toDouble (-r) = -toDouble r := by
  have hdigits : roundedDigits (-r) = roundedDigits r := by
    rw [roundedDigits, roundedDigits, lastPlace_neg, abs_neg]
  rcases lt_trichotomy r 0 with hr | rfl | hr
  · rw [toDouble, toDouble, hdigits, lastPlace_neg, if_neg (by linarith), if_pos hr]
    ring
  · rw [neg_zero, toDouble_zero, neg_zero]
  · rw [toDouble, toDouble, hdigits, lastPlace_neg, if_pos (by linarith), if_neg (by linarith)]
    ring

theorem toDouble_of_pos {r : Rat} (hr : 0 < r) : toDouble r = roundedDigits r * lastPlace r := by
  rw [toDouble, if_neg (by linarith), one_mul]

theorem toDouble_pos {r : Rat} (hr : 0 < r) : 0 < toDouble r := by
  have hdigits : (0 : Rat) < roundedDigits r := by
    exact_mod_cast (le_roundedDigits hr.ne').trans_lt' (by norm_num)
  rw [toDouble_of_pos hr]
  exact mul_pos hdigits (lastPlace_pos r)

/-- The error is at most half a unit in the last place. -/
theorem abs_toDouble_sub_le_lastPlace {r : Rat} (hr : 0 < r) :
    |toDouble r - r| ≤ 1 / 2 * lastPlace r := by
  have hplace := lastPlace_pos r
  have hsplit : toDouble r - r = (roundedDigits r - |r| / lastPlace r) * lastPlace r := by
    rw [toDouble_of_pos hr, sub_mul, div_mul_cancel₀ _ hplace.ne', abs_of_pos hr]
  rw [hsplit, abs_mul, abs_of_pos hplace]
  exact mul_le_mul_of_nonneg_right (abs_roundedDigits_sub_le r) hplace.le

theorem abs_toDouble_sub_le_of_pos {r : Rat} (hr : 0 < r) :
    |toDouble r - r| ≤ 2⁻¹ ^ 53 * r := by
  have hsize := mul_lastPlace_le hr
  calc |toDouble r - r| ≤ 1 / 2 * lastPlace r := abs_toDouble_sub_le_lastPlace hr
    _ ≤ 2⁻¹ ^ 53 * r := by norm_num at hsize ⊢; linarith

/-- Rounding moves a number by one part in `2 ^ 53` at most. -/
theorem abs_toDouble_sub_le (r : Rat) : |toDouble r - r| ≤ 2⁻¹ ^ 53 * |r| := by
  rcases lt_trichotomy r 0 with hr | rfl | hr
  · have hneg := abs_toDouble_sub_le_of_pos (neg_pos.mpr hr)
    rw [toDouble_neg, ← neg_add', abs_neg, ← sub_eq_add_neg, ← abs_of_neg hr] at hneg
    exact hneg
  · simp [toDouble_zero]
  · rw [abs_of_pos hr]
    exact abs_toDouble_sub_le_of_pos hr

/-- Rounding does not double a number. -/
theorem toDouble_le_two_mul {r : Rat} (hr : 0 ≤ r) : toDouble r ≤ 2 * r := by
  have herror := (abs_le.mp (abs_toDouble_sub_le r)).2
  rw [abs_of_nonneg hr] at herror
  norm_num at herror
  linarith

/-- A whole number of units in the last place is not changed. -/
theorem toDouble_of_units {r : Rat} {n : Nat} (hr : 0 < r) (hn : r = n * lastPlace r) :
    toDouble r = r := by
  have hquotient : |r| / lastPlace r = n / (1 : Nat) := by
    rw [abs_of_pos hr, div_eq_iff (lastPlace_pos r).ne', Nat.cast_one, div_one]
    exact hn
  rw [toDouble_of_pos hr, roundedDigits_eq Nat.one_pos hquotient, Decimal.roundHalfEven_one]
  exact hn.symm

theorem toDouble_of_digits_of_pos {n : Nat} {e : Int} (hpos : 0 < n) (hn : n < 2 ^ 53) :
    toDouble (n * 2 ^ e) = n * 2 ^ e := by
  have hr : (0 : Rat) < n * 2 ^ e := by positivity
  have hlog : Int.log 2 |(n * 2 ^ e : Rat)| ≤ e + 52 := by
    apply Int.lt_add_one_iff.mp
    rw [← Int.lt_zpow_iff_log_lt (by norm_num) (abs_pos.mpr hr.ne'), abs_of_pos hr]
    push_cast
    rw [show e + 52 + 1 = 53 + e by ring, zpow_add₀ (by norm_num)]
    exact mul_lt_mul_of_pos_right (by exact_mod_cast hn) (by positivity)
  obtain ⟨k, hk⟩ := Int.eq_ofNat_of_zero_le (sub_nonneg.mpr hlog)
  refine toDouble_of_units (n := n * 2 ^ k) hr ?_
  rw [lastPlace]
  push_cast
  rw [mul_assoc, ← zpow_natCast, ← hk, ← zpow_add₀ (by norm_num)]
  congr 2
  ring

/-- What has at most fifty-three binary digits is not changed. -/
theorem toDouble_of_digits {m e : Int} (hm : |m| < 2 ^ 53) :
    toDouble (m * 2 ^ e) = m * 2 ^ e := by
  obtain ⟨n, hn⟩ := m.eq_nat_or_neg
  have hsize : n < 2 ^ 53 := by
    rcases hn with rfl | rfl <;> simpa using hm
  have hexact : toDouble (n * 2 ^ e) = n * 2 ^ e := by
    rcases Nat.eq_zero_or_pos n with rfl | hpos
    · rw [Nat.cast_zero, zero_mul, toDouble_zero]
    · exact toDouble_of_digits_of_pos hpos hsize
  rcases hn with rfl | rfl
  · exact_mod_cast hexact
  · rw [Int.cast_neg, Int.cast_natCast, neg_mul, toDouble_neg, hexact]

/-- Rounding twice is rounding once. -/
theorem toDouble_toDouble {r : Rat} (hr : 0 < r) : toDouble (toDouble r) = toDouble r := by
  rw [toDouble_of_pos hr, lastPlace]
  rcases (roundedDigits_le r).lt_or_eq with hlt | hequal
  · exact toDouble_of_digits (m := roundedDigits r) (by exact_mod_cast hlt)
  · -- Rounding has carried to a power of two, which is one unit of a later place.
    have hcarry : (roundedDigits r * 2 ^ (Int.log 2 |r| - 52) : Rat) =
        (1 : Int) * 2 ^ (Int.log 2 |r| - 52 + 53) := by
      rw [hequal, zpow_add₀ (by norm_num)]
      norm_num
      ring
    rw [hcarry]
    exact toDouble_of_digits (by norm_num)

/-- Rounding a quotient between `2 ^ 52` and `2 ^ 53` units is rounding it to an integer. -/
theorem toDouble_of_quotient {num den : Nat} {e : Int} (hden : 0 < den)
    (hlow : 2 ^ 52 * den ≤ num) (hhigh : num < 2 ^ 53 * den) :
    toDouble (num / den * 2 ^ e) = Decimal.roundHalfEven num den * 2 ^ e := by
  have hd : (0 : Rat) < den := by exact_mod_cast hden
  have hlow' : (2 ^ 52 : Rat) ≤ num / den := by
    rw [le_div_iff₀ hd]
    exact_mod_cast hlow
  have hhigh' : (num / den : Rat) < 2 ^ 53 := by
    rw [div_lt_iff₀ hd]
    exact_mod_cast hhigh
  have hpos : (0 : Rat) < num / den * 2 ^ e := by positivity
  have hplace : lastPlace (num / den * 2 ^ e) = 2 ^ e :=
    lastPlace_of_digits (abs_of_pos hpos) hlow' hhigh'
  have hquotient : |(num / den * 2 ^ e : Rat)| / lastPlace (num / den * 2 ^ e) = num / den := by
    rw [hplace, abs_of_pos hpos, mul_div_assoc, div_self (by positivity), mul_one]
  rw [toDouble_of_pos hpos, hplace, roundedDigits_eq hden hquotient]

/-- A size between `2 ^ 52` and `2 ^ 53` units is rounded to the whole number of them that is less
than half a unit away. -/
theorem toDouble_of_near {q : Rat} {m : Nat} (hlow : 2 ^ 52 ≤ q) (hhigh : q < 2 ^ 53)
    (h : |q - m| < 1 / 2) (e : Int) : toDouble (q * 2 ^ e) = m * 2 ^ e := by
  have hvalue := natAbs_num_div_den (hlow.trans' (by norm_num))
  have hden : (0 : Rat) < q.den := by exact_mod_cast q.den_pos
  have hround := Decimal.abs_roundHalfEven_sub_le q.num.natAbs q.den_pos
  rw [← hvalue, le_div_iff₀ hden] at hlow
  rw [← hvalue, div_lt_iff₀ hden] at hhigh
  have hunits := toDouble_of_quotient (e := e) q.den_pos (by exact_mod_cast hlow)
    (by exact_mod_cast hhigh)
  rw [hvalue] at hround hunits
  have hsame : |((Decimal.roundHalfEven q.num.natAbs q.den - m : Int) : Rat)| < 1 := by
    push_cast
    have htriangle := abs_sub_le (Decimal.roundHalfEven q.num.natAbs q.den : Rat) q m
    linarith
  have hm : (Decimal.roundHalfEven q.num.natAbs q.den : Int) - m = 0 :=
    Int.abs_lt_one_iff.mp (by exact_mod_cast hsame)
  rw [hunits, Nat.cast_inj.mp (sub_eq_zero.mp hm)]

/-- What is rounded to a double with full digits, no power of two, is at most half a unit in the
last place away. -/
theorem abs_sub_le_of_toDouble_eq {r : Rat} {m : Nat} {e : Int} (hlow : 2 ^ 52 < m)
    (hhigh : m < 2 ^ 53) (h : toDouble r = m * 2 ^ e) : |r - m * 2 ^ e| ≤ 1 / 2 * 2 ^ e := by
  have hm : (2 ^ 52 : Rat) < m := by exact_mod_cast hlow
  have hm' : (m : Rat) < 2 ^ 53 := by exact_mod_cast hhigh
  have hpos : 0 < r := by
    by_contra hneg
    have hvalue : (0 : Rat) < m * 2 ^ e := by positivity
    rcases (not_lt.mp hneg).eq_or_lt with rfl | hneg
    · rw [toDouble_zero] at h
      exact absurd h hvalue.ne
    · have hopposite := toDouble_pos (neg_pos.mpr hneg)
      rw [toDouble_neg, h] at hopposite
      linarith
  have hdigits : (2 ^ 52 : Rat) ≤ roundedDigits r := by exact_mod_cast le_roundedDigits hpos.ne'
  have hdigits' : (roundedDigits r : Rat) ≤ 2 ^ 53 := by exact_mod_cast roundedDigits_le r
  rw [toDouble_of_pos hpos] at h
  -- with another last place the digits would be too many or too few
  have hplace : lastPlace r = 2 ^ e := by
    have hshift {d d' : Rat} {i j : Int} (hij : i < j) (hd : d < 2 ^ 53) (hd' : 2 ^ 52 ≤ d') :
        d * 2 ^ i < d' * 2 ^ j := by
      calc d * 2 ^ i < 2 ^ 53 * 2 ^ i := mul_lt_mul_of_pos_right hd (by positivity)
        _ = 2 ^ 52 * 2 ^ (i + 1) := by rw [zpow_add_one₀ (by norm_num)]; ring
        _ ≤ d' * 2 ^ j := mul_le_mul hd' (zpow_le_zpow_right₀ (by norm_num) hij) (by positivity)
            (by linarith)
    rw [lastPlace] at h ⊢
    rcases lt_trichotomy (Int.log 2 |r| - 52) e with hless | hequal | hmore
    · rcases hdigits'.lt_or_eq with hlt | hfull
      · exact absurd h (hshift hless hlt hm.le).ne
      · -- digits that have carried make a power of two
        exfalso
        have hcarry : (2 ^ 52 : Rat) * 2 ^ (Int.log 2 |r| - 52 + 1) = m * 2 ^ e := by
          rw [← h, hfull, zpow_add_one₀ (by norm_num)]
          ring
        rcases (Int.add_one_le_iff.mpr hless).lt_or_eq with hlt | heq
        · exact absurd hcarry (hshift hlt (by norm_num) hm.le).ne
        · rw [heq] at hcarry
          exact absurd (mul_right_cancel₀ (by positivity) hcarry) hm.ne
    · rw [hequal]
    · exact absurd h (hshift hmore hm' hdigits).ne'
  have hround := abs_roundedDigits_sub_le r
  rw [hplace] at h hround
  rw [mul_right_cancel₀ (by positivity) h, abs_of_pos hpos] at hround
  have hsize : r - m * 2 ^ e = (r / 2 ^ e - m) * 2 ^ e := by
    rw [sub_mul, div_mul_cancel₀ _ (by positivity)]
  rw [hsize, abs_mul, abs_of_pos (by positivity : (0 : Rat) < 2 ^ e), abs_sub_comm]
  exact mul_le_mul_of_nonneg_right hround (by positivity)

theorem toDouble_natCast {n : Nat} (hn : n < 2 ^ 53) : toDouble n = n := by
  rcases Nat.eq_zero_or_pos n with rfl | hpos
  · rw [Nat.cast_zero, toDouble_zero]
  · simpa using toDouble_of_digits_of_pos (e := 0) hpos hn

/-! ## Gaps -/

theorem lastPlace_le {a b : Rat} (ha : 0 < a) (hab : a < b) :
    ∃ k : Nat, lastPlace b = 2 ^ k * lastPlace a := by
  have hlog : Int.log 2 |a| ≤ Int.log 2 |b| :=
    Int.log_mono_right (abs_pos.mpr ha.ne')
      (by rw [abs_of_pos ha, abs_of_pos (ha.trans hab)]; exact hab.le)
  obtain ⟨k, hk⟩ := Int.eq_ofNat_of_zero_le (sub_nonneg.mpr hlog)
  refine ⟨k, ?_⟩
  rw [lastPlace, lastPlace, ← zpow_natCast, ← hk, ← zpow_add₀ (by norm_num)]
  congr 1
  ring

/-- Between two doubles there is at least one unit in the last place of the smaller one. -/
theorem add_lastPlace_le {a b : Rat} (ha : 0 < a) (hab : a < b) (hda : toDouble a = a)
    (hdb : toDouble b = b) : a + lastPlace a ≤ b := by
  have hplace := lastPlace_pos a
  obtain ⟨k, hk⟩ := lastPlace_le ha hab
  have hunits : a = roundedDigits a * lastPlace a := by
    rw [← toDouble_of_pos ha, hda]
  have hunits' : b = (roundedDigits b * 2 ^ k : Nat) * lastPlace a := by
    push_cast
    rw [mul_assoc, ← hk, ← toDouble_of_pos (ha.trans hab), hdb]
  have hless : roundedDigits a < roundedDigits b * 2 ^ k := by
    rw [hunits, hunits'] at hab
    exact_mod_cast lt_of_mul_lt_mul_right hab hplace.le
  have hsucc : (roundedDigits a + 1 : Rat) ≤ (roundedDigits b * 2 ^ k : Nat) := by
    exact_mod_cast hless
  calc a + lastPlace a = (roundedDigits a + 1) * lastPlace a := by rw [add_one_mul, ← hunits]
    _ ≤ (roundedDigits b * 2 ^ k : Nat) * lastPlace a :=
        mul_le_mul_of_nonneg_right hsucc hplace.le
    _ = b := hunits'.symm

theorem mul_lt_of_toDouble_lt {a b : Rat} (ha : 0 < a) (hab : a < b) (hda : toDouble a = a)
    (hdb : toDouble b = b) : a * (1 + 2⁻¹ ^ 53) < b := by
  have hsize : a * 2⁻¹ ^ 53 < lastPlace a := by
    have hdigits := lt_mul_lastPlace ha
    norm_num at hdigits ⊢
    linarith
  calc a * (1 + 2⁻¹ ^ 53) = a + a * 2⁻¹ ^ 53 := by ring
    _ < a + lastPlace a := by linarith
    _ ≤ b := add_lastPlace_le ha hab hda hdb

/-- Rounding does not go below a double, -/
theorem le_toDouble {a b : Rat} (ha : 0 < a) (hab : a ≤ b) (hda : toDouble a = a) :
    a ≤ toDouble b := by
  have hb := ha.trans_le hab
  have hplace := lastPlace_pos a
  rw [toDouble_of_pos hb]
  rcases hab.eq_or_lt with rfl | hlt
  · rw [← toDouble_of_pos ha, hda]
  obtain ⟨k, hk⟩ := lastPlace_le ha hlt
  rcases Nat.eq_zero_or_pos k with rfl | hk'
  · -- Both have the same last place, and the digits are compared.
    rw [pow_zero, one_mul] at hk
    have hunits : a = roundedDigits a * lastPlace b := by
      rw [hk, ← toDouble_of_pos ha, hda]
    have hdigits : roundedDigits a ≤ roundedDigits b := by
      refine Decimal.le_roundHalfEven (Rat.den_pos _) ?_
      have hq : (roundedDigits a : Rat) ≤ |b| / lastPlace b := by
        rwa [le_div_iff₀ (lastPlace_pos b), ← hunits, abs_of_pos hb]
      rw [← natAbs_num_div_den (div_nonneg (abs_nonneg b) (lastPlace_pos b).le),
        le_div_iff₀ (by exact_mod_cast Rat.den_pos _)] at hq
      exact_mod_cast hq
    calc a = roundedDigits a * lastPlace b := hunits
      _ ≤ roundedDigits b * lastPlace b :=
          mul_le_mul_of_nonneg_right (by exact_mod_cast hdigits) (lastPlace_pos b).le
  · have htwo : (2 : Rat) ≤ 2 ^ k := by
      simpa using pow_le_pow_right₀ (one_le_two (α := Rat)) hk'
    have hdigits : (2 ^ 52 : Rat) ≤ roundedDigits b := by exact_mod_cast le_roundedDigits hb.ne'
    have hsize := lt_mul_lastPlace ha
    calc a ≤ 2 ^ 52 * (2 * lastPlace a) := by norm_num at hsize ⊢; linarith
      _ ≤ roundedDigits b * (2 ^ k * lastPlace a) :=
          mul_le_mul hdigits (mul_le_mul_of_nonneg_right htwo hplace.le) (by positivity)
            (by positivity)
      _ = roundedDigits b * lastPlace b := by rw [hk]

/-- nor above one. -/
theorem toDouble_le {a b : Rat} (ha : 0 < a) (hab : a ≤ b) (hdb : toDouble b = b) :
    toDouble a ≤ b := by
  rcases hab.eq_or_lt with rfl | hlt
  · exact hdb.le
  obtain ⟨k, hk⟩ := lastPlace_le ha hlt
  have hunits : b = (roundedDigits b * 2 ^ k : Nat) * lastPlace a := by
    push_cast
    rw [mul_assoc, ← hk, ← toDouble_of_pos (ha.trans hlt), hdb]
  have hdigits : roundedDigits a ≤ roundedDigits b * 2 ^ k := by
    refine Decimal.roundHalfEven_le (Rat.den_pos _) ?_
    have hq : |a| / lastPlace a ≤ (roundedDigits b * 2 ^ k : Nat) := by
      rwa [div_le_iff₀ (lastPlace_pos a), ← hunits, abs_of_pos ha]
    rw [← natAbs_num_div_den (div_nonneg (abs_nonneg a) (lastPlace_pos a).le),
      div_le_iff₀ (by exact_mod_cast Rat.den_pos _)] at hq
    exact_mod_cast hq
  calc toDouble a = roundedDigits a * lastPlace a := toDouble_of_pos ha
    _ ≤ (roundedDigits b * 2 ^ k : Nat) * lastPlace a :=
        mul_le_mul_of_nonneg_right (by exact_mod_cast hdigits) (lastPlace_pos a).le
    _ = b := hunits.symm

/-- One is not crossed. -/
theorem one_le_toDouble {r : Rat} (hr : 1 ≤ r) : 1 ≤ toDouble r := by
  refine le_toDouble one_pos hr ?_
  simpa using toDouble_natCast (n := 1) (by norm_num)

/-- A double below another one stays below it if both are scaled and rounded. -/
theorem toDouble_mul_lt {a b c : Rat} (ha : 0 < a) (hab : a < b) (hda : toDouble a = a)
    (hdb : toDouble b = b) (hc : 0 < c) : toDouble (a * c) < b * c := by
  have hgap := mul_lt_of_toDouble_lt ha hab hda hdb
  have herror := (abs_le.mp (abs_toDouble_sub_le_of_pos (mul_pos ha hc))).2
  calc toDouble (a * c) ≤ a * (1 + 2⁻¹ ^ 53) * c := by linarith
    _ < b * c := mul_lt_mul_of_pos_right hgap hc

theorem toDouble_ten_pow {k : Nat} (hk : k ≤ 22) : toDouble (10 ^ k) = 10 ^ k := by
  have hfive : 5 ^ k < 2 ^ 53 :=
    (Nat.pow_le_pow_right (by norm_num) hk).trans_lt (by norm_num)
  have hsplit : (10 : Rat) ^ k = (5 ^ k : Nat) * 2 ^ (k : Int) := by
    rw [zpow_natCast]
    push_cast
    rw [← mul_pow]
    norm_num
  rw [hsplit]
  exact toDouble_of_digits_of_pos (by positivity) hfive

/-! ## Errors that add up -/

/-- Two positive numbers that `k` roundings may have parted, each by one part in `2 ^ 53`. -/
structure Within (k : Nat) (a b : Rat) : Prop where
  pos : 0 < a
  pos' : 0 < b
  le : b * (1 - 2⁻¹ ^ 53) ^ k ≤ a
  le' : a * (1 - 2⁻¹ ^ 53) ^ k ≤ b

theorem Within.refl {a : Rat} (ha : 0 < a) : Within 0 a a :=
  ⟨ha, ha, by simp, by simp⟩

theorem Within.toDouble {k : Nat} {a b : Rat} (h : Within k a b) :
    Within (k + 1) (toDouble a) b := by
  obtain ⟨ha, hb, hle, hle'⟩ := h
  obtain ⟨hlow, hhigh⟩ := abs_le.mp (abs_toDouble_sub_le_of_pos ha)
  have hpower : (0 : Rat) < (1 - 2⁻¹ ^ 53) ^ k := pow_pos (by norm_num) k
  refine ⟨toDouble_pos ha, hb, ?_, ?_⟩
  · calc b * (1 - 2⁻¹ ^ 53) ^ (k + 1) = b * (1 - 2⁻¹ ^ 53) ^ k * (1 - 2⁻¹ ^ 53) := by ring
      _ ≤ a * (1 - 2⁻¹ ^ 53) := mul_le_mul_of_nonneg_right hle (by norm_num)
      _ ≤ Binary64.toDouble a := by linarith
  · have hsquare : (1 + 2⁻¹ ^ 53 : Rat) * (1 - 2⁻¹ ^ 53) ≤ 1 := by norm_num
    calc Binary64.toDouble a * (1 - 2⁻¹ ^ 53) ^ (k + 1)
        ≤ a * (1 + 2⁻¹ ^ 53) * (1 - 2⁻¹ ^ 53) ^ (k + 1) :=
          mul_le_mul_of_nonneg_right (by linarith) (pow_pos (by norm_num) _).le
      _ = a * (1 - 2⁻¹ ^ 53) ^ k * ((1 + 2⁻¹ ^ 53) * (1 - 2⁻¹ ^ 53)) := by ring
      _ ≤ a * (1 - 2⁻¹ ^ 53) ^ k * 1 := mul_le_mul_of_nonneg_left hsquare (by positivity)
      _ ≤ b := by rwa [mul_one]

theorem Within.mul {k : Nat} {a b c : Rat} (h : Within k a b) (hc : 0 < c) :
    Within k (a * c) (b * c) := by
  obtain ⟨ha, hb, hle, hle'⟩ := h
  refine ⟨mul_pos ha hc, mul_pos hb hc, ?_, ?_⟩
  · rw [mul_right_comm]
    exact mul_le_mul_of_nonneg_right hle hc.le
  · rw [mul_right_comm]
    exact mul_le_mul_of_nonneg_right hle' hc.le

theorem Within.div {k l : Nat} {a b c d : Rat} (h : Within k a b) (h' : Within l c d) :
    Within (k + l) (a / c) (b / d) := by
  obtain ⟨ha, hb, hle, hle'⟩ := h
  obtain ⟨hc, hd, hle₁, hle₁'⟩ := h'
  have hk : (0 : Rat) < (1 - 2⁻¹ ^ 53) ^ k := pow_pos (by norm_num) k
  have hl : (0 : Rat) < (1 - 2⁻¹ ^ 53) ^ l := pow_pos (by norm_num) l
  refine ⟨div_pos ha hc, div_pos hb hd, ?_, ?_⟩
  · rw [pow_add, div_mul_eq_mul_div, div_le_div_iff₀ hd hc]
    calc b * ((1 - 2⁻¹ ^ 53) ^ k * (1 - 2⁻¹ ^ 53) ^ l) * c
        = b * (1 - 2⁻¹ ^ 53) ^ k * (c * (1 - 2⁻¹ ^ 53) ^ l) := by ring
      _ ≤ a * d := mul_le_mul hle hle₁' (by positivity) ha.le
  · rw [pow_add, div_mul_eq_mul_div, div_le_div_iff₀ hc hd]
    calc a * ((1 - 2⁻¹ ^ 53) ^ k * (1 - 2⁻¹ ^ 53) ^ l) * d
        = a * (1 - 2⁻¹ ^ 53) ^ k * (d * (1 - 2⁻¹ ^ 53) ^ l) := by ring
      _ ≤ b * c := mul_le_mul hle' hle₁ (by positivity) hb.le

/-- A few roundings move a number by less than one part in `10 ^ 14`. -/
theorem Within.abs_sub_le {k : Nat} {a b : Rat} (h : Within k a b) (hk : k ≤ 10) :
    |a - b| ≤ b / 10 ^ 14 := by
  obtain ⟨ha, hb, hle, hle'⟩ := h
  have hten : (1 - 2⁻¹ ^ 53 : Rat) ^ 10 ≤ (1 - 2⁻¹ ^ 53) ^ k :=
    pow_le_pow_of_le_one (by norm_num) (by norm_num) hk
  have hbound : (1 - 2 / 10 ^ 15 : Rat) ≤ (1 - 2⁻¹ ^ 53) ^ 10 := by norm_num
  have hlow : b * (1 - 2 / 10 ^ 15) ≤ a :=
    (mul_le_mul_of_nonneg_left (hbound.trans hten) hb.le).trans hle
  have hhigh : a * (1 - 2 / 10 ^ 15) ≤ b :=
    (mul_le_mul_of_nonneg_left (hbound.trans hten) ha.le).trans hle'
  rw [abs_le]
  constructor <;> norm_num at hlow hhigh ⊢ <;> linarith

theorem abs_toDouble (r : Rat) : |toDouble r| = toDouble |r| := by
  rcases lt_trichotomy r 0 with hr | rfl | hr
  · rw [abs_of_neg hr, toDouble_neg, ← abs_neg (toDouble r), ← toDouble_neg,
      abs_of_pos (toDouble_pos (neg_pos.mpr hr))]
  · rw [abs_zero, toDouble_zero, abs_zero]
  · rw [abs_of_pos hr, abs_of_pos (toDouble_pos hr)]

end Binary64
end Mensura
