import Mathlib
import Mensura.Proofs.Binary64.Comparison

/-!
# The ends of the range

What the arithmetic of doubles comes to, also where the result is too small for fifty-three digits
or too large for any double.  `nearestDouble r` is the double nearest to `r`, as if there were no
largest one; `finite` says which of them there are.

* `toRat?_mul_eq`, `toRat?_div_eq`, `toRat?_add_eq`, `toRat?_sub_eq`: the value of a product, a
  quotient, a sum and a difference, or that they have none.
* `abs_nearestDouble_le`, `abs_le_nearestDouble`: rounding changes a size by a factor of two at
  most, if it does not make it zero.
* `HasSign.mul`, `HasSign.div`: zeros and infinities have signs, too, and keep them.
-/

set_option autoImplicit false

open Float.Model Float.Model.UnpackedFloat

namespace Mensura
namespace Binary64

/-! ## Rounding with a least exponent -/

/-- The double nearest to `r`, were there no largest one.  Below the normal range the doubles are
the multiples of `2 ^ -1074`. -/
def nearestDouble (r : Rat) : Rat :=
  if |r| < 2 ^ (-1022 : Int) then
    (if r < 0 then -1 else 1) *
      (Decimal.roundHalfEven (|r| * 2 ^ (1074 : Int)).num.natAbs (|r| * 2 ^ (1074 : Int)).den *
        2 ^ (-1074 : Int))
  else toDouble r

theorem nearestDouble_of_le {r : Rat} (h : (2 : Rat) ^ (-1022 : Int) ≤ |r|) :
    nearestDouble r = toDouble r := by
  rw [nearestDouble, if_neg (not_lt.mpr h)]

theorem nearestDouble_of_lt {num den : Nat} (hden : 0 < den)
    (h : (num / den * 2 ^ (-1074 : Int) : Rat) < 2 ^ (-1022 : Int)) :
    nearestDouble (num / den * 2 ^ (-1074 : Int)) =
      Decimal.roundHalfEven num den * 2 ^ (-1074 : Int) := by
  have hnonneg : (0 : Rat) ≤ num / den * 2 ^ (-1074 : Int) := by positivity
  have hunits : (num / den * 2 ^ (-1074 : Int) * 2 ^ (1074 : Int) : Rat) = num / den := by
    rw [mul_assoc, ← zpow_add₀ (by norm_num), neg_add_cancel, zpow_zero, mul_one]
  rw [nearestDouble, abs_of_nonneg hnonneg, if_pos h, if_neg (not_lt.mpr hnonneg), one_mul, hunits]
  congr 2
  refine Decimal.roundHalfEven_congr (Rat.den_pos _) hden ?_
  rw [natAbs_num_div_den (by positivity)]

theorem nearestDouble_neg (r : Rat) : nearestDouble (-r) = -nearestDouble r := by
  rw [nearestDouble, nearestDouble, abs_neg]
  split
  · rcases lt_trichotomy r 0 with hr | rfl | hr
    · rw [if_neg (by linarith), if_pos hr]
      ring
    · simp [Decimal.roundHalfEven]
    · rw [if_pos (by linarith), if_neg (by linarith)]
      ring
  · exact toDouble_neg r

theorem nearestDouble_zero : nearestDouble 0 = 0 := by
  have h := nearestDouble_neg 0
  rw [neg_zero] at h
  linarith

theorem nearestDouble_unit_mul (s : Sign) (r : Rat) :
    nearestDouble (unit s * r) = unit s * nearestDouble r := by
  cases s
  · have hunit : unit .negative = -1 := rfl
    rw [hunit, neg_one_mul, neg_one_mul, nearestDouble_neg]
  · have hunit : unit .positive = 1 := rfl
    rw [hunit, one_mul, one_mul]

/-! ## Which doubles there are -/

/-- The numbers below the end of the range. -/
def finite (r : Rat) : Option Rat :=
  if |r| < 2 ^ (1024 : Int) then some r else none

theorem finite_eq_some {r v : Rat} : finite r = some v ↔ r = v ∧ |r| < 2 ^ (1024 : Int) := by
  rw [finite]
  split
  · next h => exact ⟨fun hv ↦ ⟨Option.some.inj hv, h⟩, fun hv ↦ congrArg some hv.1⟩
  · next h => exact ⟨nofun, fun hv ↦ absurd hv.2 h⟩

/-- A mantissa and an exponent as rounding leaves them: as the bits of a double hold them, except
that the exponent may be too large. -/
structure Rounded (m : Nat) (e : Int) : Prop where
  lt : m < 2 ^ 53
  least_le : -1074 ≤ e
  full : 2 ^ 52 ≤ m ∨ e = -1074

/-- An exponent that is too large for its field. -/
theorem pack_infinity (s : Sign) {m : Nat} {e : Int} (hm : 0 < m) (he : 971 < e) :
    UnpackedFloat.pack .binary64 (.finite s m e hm) =
      UnpackedFloat.pack .binary64 (.infinity s) := by
  have hbiased : (e + Format.binary64.exponentBias +
      Format.binary64.mantissaBitsWithoutImplicit).toNat = (e + 1075).toNat := by
    change (e + 1023 + 52).toNat = _
    omega
  have hrange : 2 ^ Format.binary64.exponentBits ≤ (e + 1075).toNat + 1 := by
    change 2048 ≤ (e + 1075).toNat + 1
    omega
  delta UnpackedFloat.pack
  dsimp only
  simp only [hbiased, if_pos hrange]

/-- Numbers that are too large are packed as infinity. -/
theorem toRat?_ofModel_pack_rounded (s : Sign) {m : Nat} {e : Int} (hm : 0 < m)
    (h : Rounded m e) :
    toRat? (Float.ofModel (Float.Model.pack (.finite s m e hm))) =
      finite (unit s * (m * 2 ^ e)) := by
  have hsize : |unit s * (m * 2 ^ e)| = m * 2 ^ e := by
    rw [abs_mul, abs_unit, one_mul, abs_of_pos (by positivity)]
  rcases le_or_gt e 971 with hle | hgt
  · have hless : (m * 2 ^ e : Rat) < 2 ^ (1024 : Int) := by
      calc (m * 2 ^ e : Rat) ≤ m * 2 ^ (971 : Int) :=
            mul_le_mul_of_nonneg_left (zpow_le_zpow_right₀ (by norm_num) hle) (by positivity)
        _ < 2 ^ (53 : Int) * 2 ^ (971 : Int) :=
            mul_lt_mul_of_pos_right (by exact_mod_cast h.lt) (by positivity)
        _ = 2 ^ (1024 : Int) := (zpow_add₀ (by norm_num) 53 971).symm
    rw [toRat?_ofModel_pack (u := .finite s m e hm) ⟨h.lt, h.least_le, hle, h.full⟩,
      unpackedValue_finite, apply_eq, mul_assoc, finite, hsize, if_pos hless]
  · have hfull : 2 ^ 52 ≤ m := h.full.resolve_right (by omega)
    have hgreat : (2 : Rat) ^ (1024 : Int) ≤ m * 2 ^ e := by
      calc (2 : Rat) ^ (1024 : Int) = 2 ^ (52 : Int) * 2 ^ (972 : Int) :=
            zpow_add₀ (by norm_num) 52 972
        _ ≤ m * 2 ^ (972 : Int) :=
            mul_le_mul_of_nonneg_right (by exact_mod_cast hfull) (by positivity)
        _ ≤ m * 2 ^ e :=
            mul_le_mul_of_nonneg_left (zpow_le_zpow_right₀ (by norm_num) hgt) (by positivity)
    have hinfinity : Float.Model.pack (.finite s m e hm) = Float.Model.pack (.infinity s) := by
      simp only [Float.Model.pack, pack_infinity s hm hgt]
    rw [hinfinity, toRat?_ofModel_pack (u := .infinity s) trivial, finite, hsize,
      if_neg (not_lt.mpr hgreat)]
    rfl

/-! ## Rounding -/

/-- Below the normal range rounding shifts to the least exponent. -/
theorem shiftToTargetExponent_small {num den k : Nat} (hden : 0 < den)
    (hunits : num < 2 ^ 53 * (den * 2 ^ k)) :
    shiftToTargetExponent .binary64 (num / den) (-1074 - k) (extended num den).accuracy =
      (extended num (den * 2 ^ k), -1074) := by
  have hlog : (num / den).log2 < 53 + k ∨ num / den = 0 := by
    rcases Nat.eq_zero_or_pos (num / den) with hzero | hpos
    · exact .inr hzero
    · left
      rw [Nat.log2_lt hpos.ne', Nat.div_lt_iff_lt_mul hden]
      calc num < 2 ^ 53 * (den * 2 ^ k) := hunits
        _ = 2 ^ (53 + k) * den := by ring
  have htarget :
      Format.binary64.targetExponent (totalExponent (num / den) (-1074 - k)) = -1074 := by
    change max (((num / den).log2 : Int) + 1 + (-1074 - k) - 53) (-1074) = _
    rcases hlog with hlog | hzero
    · omega
    · rw [hzero, Nat.log2_zero]
      omega
  have hshift : (-1074 - (-1074 - (k : Int))).toNat = k := by omega
  have hmantissa : ExtendedMantissa.ofMantissaAndAccuracy (num / den) (extended num den).accuracy =
      extended num den := ofMantissaAndAccuracy_accuracy (extended num den)
  rw [shiftToTargetExponent, shiftToExponent, htarget, hshift, hmantissa,
    shiftRight_extended _ _ hden, sub_add_cancel]

theorem roundWithAccuracy_small {num den : Nat} {e : Int} (s : Sign) (hden : 0 < den)
    (he : e ≤ -1074) (hsmall : (num / den * 2 ^ e : Rat) < 2 ^ (-1022 : Int)) :
    toRat? (Float.ofModel (Float.Model.pack
        (roundWithAccuracy .binary64 s (num / den) e (extended num den).accuracy))) =
      finite (unit s * nearestDouble (num / den * 2 ^ e)) := by
  obtain ⟨k, rfl⟩ : ∃ k : Nat, e = -1074 - k := ⟨(-1074 - e).toNat, by omega⟩
  have hden' : 0 < den * 2 ^ k := by positivity
  have hvalue : (num / den * 2 ^ (-1074 - k : Int) : Rat) =
      num / (den * 2 ^ k : Nat) * 2 ^ (-1074 : Int) := by
    rw [zpow_sub₀ (by norm_num), zpow_natCast, Nat.cast_mul, Nat.cast_pow, Nat.cast_ofNat]
    field_simp
  rw [hvalue] at hsmall ⊢
  have hunits : num < 2 ^ 52 * (den * 2 ^ k) := by
    have hsplit : (2 : Rat) ^ (-1022 : Int) = 2 ^ (52 : Int) * 2 ^ (-1074 : Int) :=
      zpow_add₀ (by norm_num) 52 (-1074)
    rw [hsplit] at hsmall
    have hless := lt_of_mul_lt_mul_right hsmall (by positivity)
    rw [div_lt_iff₀ (by exact_mod_cast hden')] at hless
    exact_mod_cast hless
  have hdigits : Decimal.roundHalfEven num (den * 2 ^ k) ≤ 2 ^ 52 :=
    Decimal.roundHalfEven_le hden' hunits.le
  have hunits' : num < 2 ^ 53 * (den * 2 ^ k) := by omega
  have hdigits' : Decimal.roundHalfEven num (den * 2 ^ k) < 2 ^ 53 * (1 * 2 ^ 0) := by omega
  have hshift := shiftToTargetExponent_small hden hunits'
  have hagain := shiftToTargetExponent_small Nat.one_pos hdigits'
  rw [Nat.div_one, accuracy_extended_one, ← roundedMantissa_extended num hden',
    Nat.cast_zero, sub_zero, pow_zero, mul_one] at hagain
  rw [nearestDouble_of_lt hden' hsmall]
  rw [← roundedMantissa_extended num hden'] at hdigits ⊢
  generalize hm : (extended num (den * 2 ^ k)).roundedMantissa = m at *
  have hmantissa : (extended m 1).mantissa = m := Nat.div_one m
  rcases Nat.eq_zero_or_pos m with rfl | hpos
  · have hround : roundWithAccuracy .binary64 s (num / den) (-1074 - k)
        (extended num den).accuracy = .zero s := by
      delta roundWithAccuracy
      rw [hshift]
      dsimp only
      rw [hm, hagain]
      exact dif_pos hmantissa
    rw [hround, toRat?_ofModel_pack (u := .zero s) trivial, unpackedValue_zero, Nat.cast_zero,
      zero_mul, mul_zero, finite, abs_zero, if_pos (by positivity)]
  · have hround := roundWithAccuracy_eq_finite s hshift
      (by rw [hm, hagain]; exact hmantissa) (by rw [hm, hagain]) hpos
    rw [hround]
    exact toRat?_ofModel_pack_rounded s hpos ⟨by omega, le_rfl, .inr rfl⟩

/-- The value of a rounded quotient that comes with enough digits, or with a small exponent where
it is small itself. -/
theorem toRat?_ofModel_rounded {num den m : Nat} {e : Int} {a : Accuracy} (s : Sign)
    (hden : 0 < den) (hm : m = num / den) (ha : a = (extended num den).accuracy)
    (hdigits : (2 : Rat) ^ (-1022 : Int) ≤ num / den * 2 ^ e → 2 ^ 52 ≤ m)
    (hsmall : (num / den * 2 ^ e : Rat) < 2 ^ (-1022 : Int) → e ≤ -1074) :
    toRat? (Float.ofModel (Float.Model.pack (roundWithAccuracy .binary64 s m e a))) =
      finite (unit s * nearestDouble (num / den * 2 ^ e)) := by
  subst hm ha
  have hnonneg : (0 : Rat) ≤ num / den * 2 ^ e := by positivity
  rcases lt_or_ge (num / den * 2 ^ e : Rat) (2 ^ (-1022 : Int)) with hless | hleast
  · exact roundWithAccuracy_small s hden (hsmall hless) hless
  · obtain ⟨m', e', hm', hround, hlow, hhigh, hexponent, hvalue⟩ :=
      roundWithAccuracy_full s hden (hdigits hleast) hleast
    rw [hround, toRat?_ofModel_pack_rounded s hm' ⟨hhigh, hexponent, .inl hlow⟩, hvalue,
      nearestDouble_of_le (by rwa [abs_of_nonneg hnonneg])]

/-- Fifty-three digits with an exponent that is not too small. -/
theorem least_le_of_digits {m : Nat} {e : Int} (hm : 2 ^ 52 ≤ m) (he : -1074 ≤ e) :
    (2 : Rat) ^ (-1022 : Int) ≤ m * 2 ^ e := by
  calc (2 : Rat) ^ (-1022 : Int) = 2 ^ (52 : Int) * 2 ^ (-1074 : Int) :=
        zpow_add₀ (by norm_num) 52 (-1074)
    _ ≤ m * 2 ^ e := mul_le_mul (by exact_mod_cast hm) (zpow_le_zpow_right₀ (by norm_num) he)
        (by positivity) (by positivity)

/-! ## The four operations -/

variable {x y : Float} {a b : Rat}

theorem finite_zero : finite 0 = some 0 :=
  finite_eq_some.mpr ⟨rfl, by rw [abs_zero]; positivity⟩

/-- The value of a double is the nearest double to itself. -/
theorem finite_nearestDouble (hx : toRat? x = some a) : finite (nearestDouble a) = some a := by
  have hdouble := toDouble_of_toRat? hx
  rcases exists_unpack_of_toRat? hx with ⟨s, hu, rfl⟩ | ⟨s, m, e, hm, hu, hc, rfl⟩
  · rw [nearestDouble_zero, finite_zero]
  · have hpack := toRat?_ofModel_pack_rounded s hm ⟨hc.lt, hc.least_le, hc.full⟩
    rw [toRat?_ofModel_pack (u := .finite s m e hm) hc, unpackedValue_finite, apply_eq,
      mul_assoc] at hpack
    rw [apply_eq, mul_assoc, nearestDouble_unit_mul, hpack]
    congr 2
    rcases lt_or_ge (m * 2 ^ e : Rat) (2 ^ (-1022 : Int)) with hless | hleast
    · obtain rfl : e = -1074 := hc.full.resolve_left fun hfull ↦
        absurd hless (not_lt.mpr (least_le_of_digits hfull hc.least_le))
      have hunits : nearestDouble (m / (1 : Nat) * 2 ^ (-1074 : Int)) = _ :=
        nearestDouble_of_lt Nat.one_pos (by rwa [Nat.cast_one, div_one])
      rwa [Nat.cast_one, div_one, Decimal.roundHalfEven_one] at hunits
    · rw [nearestDouble_of_le (by rwa [abs_of_nonneg (by positivity)])]
      rw [apply_eq, mul_assoc, toDouble_unit_mul] at hdouble
      exact mul_left_cancel₀ (unit_ne_zero s) hdouble

/-- The value of a product. -/
theorem toRat?_mul_eq (hx : toRat? x = some a) (hy : toRat? y = some b) :
    toRat? (x * y) = finite (nearestDouble (a * b)) := by
  have hmul : x * y = Float.ofModel (Float.Model.pack
      (UnpackedFloat.mul .binary64 x.toModel.unpack y.toModel.unpack)) := rfl
  rw [hmul]
  rcases exists_unpack_of_toRat? hx with ⟨s₁, hu₁, rfl⟩ | ⟨s₁, m₁, e₁, hm₁, hu₁, hc₁, rfl⟩ <;>
    rcases exists_unpack_of_toRat? hy with ⟨s₂, hu₂, rfl⟩ | ⟨s₂, m₂, e₂, hm₂, hu₂, hc₂, rfl⟩
  · rw [hu₁, hu₂, zero_mul, nearestDouble_zero, finite_zero]
    exact toRat?_ofModel_pack (u := .zero (s₁ * s₂)) trivial
  · rw [hu₁, hu₂, zero_mul, nearestDouble_zero, finite_zero]
    exact toRat?_ofModel_pack (u := .zero (s₁ * s₂)) trivial
  · rw [hu₁, hu₂, mul_zero, nearestDouble_zero, finite_zero]
    exact toRat?_ofModel_pack (u := .zero (s₁ * s₂)) trivial
  · have hproduct : (s₁.apply m₁ : Rat) * 2 ^ e₁ * (s₂.apply m₂ * 2 ^ e₂) =
        unit (s₁ * s₂) * ((m₁ * m₂ : Nat) / (1 : Nat) * 2 ^ (e₁ + e₂)) := by
      rw [apply_eq, apply_eq, unit_mul, zpow_add₀ (by norm_num)]
      push_cast
      ring
    rw [hu₁, hu₂, hproduct, nearestDouble_unit_mul]
    refine toRat?_ofModel_rounded (s₁ * s₂) Nat.one_pos (Nat.div_one _).symm
      (accuracy_extended_one _).symm (fun hleast ↦ ?_) (fun hless ↦ ?_)
    · rw [Nat.cast_mul, Nat.cast_one, div_one] at hleast
      exact two_pow_52_le_mul_of_least hc₁ hc₂ hm₁ hm₂ hleast
    · rw [Nat.cast_one, div_one] at hless
      by_contra hexponent
      have hdigits : 2 ^ 52 ≤ m₁ * m₂ := by
        rcases hc₁.full with hfull | rfl
        · exact hfull.trans (Nat.le_mul_of_pos_right m₁ hm₂)
        · exact (hc₂.full.resolve_right (by omega)).trans (Nat.le_mul_of_pos_left m₂ hm₁)
      exact absurd hless (not_lt.mpr (least_le_of_digits hdigits (by omega)))

/-- The value of a quotient. -/
theorem toRat?_div_eq (hx : toRat? x = some a) (hy : toRat? y = some b) (hb : b ≠ 0) :
    toRat? (x / y) = finite (nearestDouble (a / b)) := by
  have hdiv : x / y = Float.ofModel (Float.Model.pack
      (UnpackedFloat.div .binary64 x.toModel.unpack y.toModel.unpack)) := rfl
  rcases exists_unpack_of_toRat? hy with ⟨s₂, hu₂, rfl⟩ | ⟨s₂, m₂, e₂, hm₂, hu₂, hc₂, rfl⟩
  · exact absurd rfl hb
  rcases exists_unpack_of_toRat? hx with ⟨s₁, hu₁, rfl⟩ | ⟨s₁, m₁, e₁, hm₁, hu₁, hc₁, rfl⟩
  · rw [hdiv, hu₁, hu₂, zero_div, nearestDouble_zero, finite_zero]
    exact toRat?_ofModel_pack (u := .zero (s₁ / s₂)) trivial
  · have hquotient : (s₁.apply m₁ : Rat) * 2 ^ e₁ / (s₂.apply m₂ * 2 ^ e₂) =
        unit (s₁ / s₂) * (m₁ / m₂ * 2 ^ (e₁ - e₂)) := by
      rw [apply_eq, apply_eq, unit_div, zpow_sub₀ (by norm_num)]
      cases s₁ <;> cases s₂ <;> simp [unit] <;> field_simp
    obtain ⟨num, e, hcore, hvalue, hdigits, hsmall⟩ := divCore_eq e₂ hc₁ hm₁ hm₂
    have hround : UnpackedFloat.div .binary64 (.finite s₁ m₁ e₁ hm₁) (.finite s₂ m₂ e₂ hm₂) =
        roundWithAccuracy .binary64 (s₁ / s₂) (num / m₂) e (extended num m₂).accuracy := by
      delta UnpackedFloat.div
      dsimp only
      rw [hcore]
    rw [hdiv, hu₁, hu₂, hround, hquotient, ← hvalue, nearestDouble_unit_mul]
    exact toRat?_ofModel_rounded (s₁ / s₂) hm₂ rfl rfl hdigits hsmall

/-- The value of a mantissa that is rounded from a whole number. -/
theorem toRat?_ofModel_round (s : Sign) {m : Nat} (e : Int) (hm : 0 < m) :
    toRat? (Float.ofModel (Float.Model.pack (UnpackedFloat.round .binary64 s m e))) =
      finite (unit s * nearestDouble (m * 2 ^ e)) := by
  obtain ⟨t, ht⟩ : ∃ t, t = max ((m.log2 : Int) + 1 + e - 53) (-1074) := ⟨_, rfl⟩
  obtain ⟨k, hk⟩ : ∃ k, k = (e - t).toNat := ⟨_, rfl⟩
  have hround : UnpackedFloat.round .binary64 s m e =
      roundWithAccuracy .binary64 s (m * 2 ^ k) (e - k) .exact := by
    rw [ht] at hk
    delta UnpackedFloat.round
    dsimp only
    rw [decreaseExponent, Nat.shiftLeft_eq, hk]
    rfl
  have hvalue : (m * 2 ^ e : Rat) = (m * 2 ^ k : Nat) / (1 : Nat) * 2 ^ (e - k : Int) := by
    rw [zpow_sub₀ (by norm_num), zpow_natCast]
    push_cast
    field_simp
  have hlow : (2 : Rat) ^ ((m.log2 : Int) + e) ≤ m * 2 ^ e := by
    rw [zpow_add₀ (by norm_num), zpow_natCast]
    exact mul_le_mul_of_nonneg_right (by exact_mod_cast Nat.log2_self_le hm.ne') (by positivity)
  have hhigh : (m * 2 ^ e : Rat) < 2 ^ ((m.log2 : Int) + 1 + e) := by
    rw [zpow_add₀ (by norm_num)]
    exact mul_lt_mul_of_pos_right (by exact_mod_cast Nat.lt_log2_self) (by positivity)
  rw [hround, hvalue]
  refine toRat?_ofModel_rounded s Nat.one_pos (Nat.div_one _).symm
    (accuracy_extended_one _).symm (fun hleast ↦ ?_) (fun hless ↦ ?_)
  · rw [← hvalue] at hleast
    have horder := (zpow_lt_zpow_iff_right₀ (by norm_num : (1 : Rat) < 2)).mp
      (hleast.trans_lt hhigh)
    calc 2 ^ 52 ≤ 2 ^ (m.log2 + k) := Nat.pow_le_pow_right (by norm_num) (by omega)
      _ = 2 ^ m.log2 * 2 ^ k := pow_add 2 m.log2 k
      _ ≤ m * 2 ^ k := Nat.mul_le_mul_right _ (Nat.log2_self_le hm.ne')
  · rw [← hvalue] at hless
    have horder := (zpow_lt_zpow_iff_right₀ (by norm_num : (1 : Rat) < 2)).mp (hlow.trans_lt hless)
    omega

/-- The value of a mantissa that is rounded with its sign. -/
theorem toRat?_ofModel_normalize (m e : Int) (s : Sign) :
    toRat? (Float.ofModel (Float.Model.pack (UnpackedFloat.normalize .binary64 m e s))) =
      finite (nearestDouble (m * 2 ^ e)) := by
  delta UnpackedFloat.normalize
  rcases lt_trichotomy m 0 with hneg | rfl | hpos
  · obtain ⟨n, rfl⟩ : ∃ n : Nat, m = -n := ⟨(-m).toNat, by omega⟩
    rw [compare_lt_iff_lt.mpr hneg]
    have hvalue : ((-n : Int) * 2 ^ e : Rat) = unit .negative * (n * 2 ^ e) := by
      simp [unit]
    rw [hvalue, nearestDouble_unit_mul, ← toRat?_ofModel_round .negative e (by omega)]
    simp
  · rw [compare_eq_iff_eq.mpr rfl, Int.cast_zero, zero_mul, nearestDouble_zero, finite_zero]
    exact toRat?_ofModel_pack (u := .zero s) trivial
  · obtain ⟨n, rfl⟩ : ∃ n : Nat, m = n := ⟨m.toNat, by omega⟩
    rw [compare_gt_iff_gt.mpr hpos]
    have hvalue : ((n : Int) * 2 ^ e : Rat) = unit .positive * (n * 2 ^ e) := by
      simp [unit]
    rw [hvalue, nearestDouble_unit_mul, ← toRat?_ofModel_round .positive e (by omega)]
    simp

/-- Two mantissas brought to one exponent. -/
theorem apply_decreaseExponent (s : Sign) {m : Nat} {e t : Int} (ht : t ≤ e) :
    ((s.apply (decreaseExponent m e t).1 : Int) : Rat) * 2 ^ t = s.apply m * 2 ^ e := by
  obtain ⟨k, rfl⟩ : ∃ k : Nat, e = t + k := ⟨(e - t).toNat, by omega⟩
  rw [decreaseExponent, show (t + k - t).toNat = k by omega, Nat.shiftLeft_eq, apply_eq, apply_eq,
    zpow_add₀ (by norm_num), zpow_natCast]
  push_cast
  ring

/-- The value of a sum. -/
theorem toRat?_add_eq (hx : toRat? x = some a) (hy : toRat? y = some b) :
    toRat? (x + y) = finite (nearestDouble (a + b)) := by
  have hadd : x + y = Float.ofModel (Float.Model.pack
      (UnpackedFloat.add .binary64 x.toModel.unpack y.toModel.unpack)) := rfl
  rcases exists_unpack_of_toRat? hx with ⟨s₁, hu₁, rfl⟩ | ⟨s₁, m₁, e₁, hm₁, hu₁, hc₁, rfl⟩ <;>
    rcases exists_unpack_of_toRat? hy with ⟨s₂, hu₂, rfl⟩ | ⟨s₂, m₂, e₂, hm₂, hu₂, hc₂, rfl⟩
  · rw [hadd, hu₁, hu₂, add_zero, nearestDouble_zero, finite_zero]
    cases s₁ <;> cases s₂ <;> exact toRat?_ofModel_pack (u := .zero _) trivial
  · rw [hadd, hu₁, hu₂, zero_add, finite_nearestDouble hy]
    exact toRat?_ofModel_pack (u := .finite s₂ m₂ e₂ hm₂) hc₂
  · rw [hadd, hu₁, hu₂, add_zero, finite_nearestDouble hx]
    exact toRat?_ofModel_pack (u := .finite s₁ m₁ e₁ hm₁) hc₁
  · have hsum := toRat?_ofModel_normalize (s₁.apply (decreaseExponent m₁ e₁ (min e₁ e₂)).1 +
      s₂.apply (decreaseExponent m₂ e₂ (min e₁ e₂)).1) (min e₁ e₂) .positive
    rw [Int.cast_add, add_mul, apply_decreaseExponent s₁ (min_le_left e₁ e₂),
      apply_decreaseExponent s₂ (min_le_right e₁ e₂)] at hsum
    rw [hadd, hu₁, hu₂]
    exact hsum

theorem sub_eq_add_neg_unpacked (spec : Format) (u v : UnpackedFloat) :
    UnpackedFloat.sub spec u v = UnpackedFloat.add spec u v.neg := by
  cases u <;> cases v <;> try rfl
  next s₁ m₁ e₁ hm₁ s₂ m₂ e₂ hm₂ =>
    have hneg (n : Nat) : (-s₂).apply n = -s₂.apply n := by cases s₂ <;> simp [Sign.apply]
    change UnpackedFloat.normalize spec _ _ _ = UnpackedFloat.normalize spec _ _ _
    rw [hneg, Int.sub_eq_add_neg]

theorem add_comm_unpacked (spec : Format) (u v : UnpackedFloat) :
    UnpackedFloat.add spec u v = UnpackedFloat.add spec v u := by
  cases u <;> cases v <;> try rfl
  case infinity.infinity s t => cases s <;> cases t <;> rfl
  case zero.zero s t => cases s <;> cases t <;> rfl
  case finite.finite s₁ m₁ e₁ hm₁ s₂ m₂ e₂ hm₂ =>
    delta UnpackedFloat.add
    dsimp only
    rw [min_comm e₁ e₂, Int.add_comm]

/-- Sums do not depend on the order of two doubles, whatever these are. -/
theorem float_add_comm (x y : Float) : x + y = y + x := by
  have hadd (x y : Float) : x + y = Float.ofModel (Float.Model.pack
      (UnpackedFloat.add .binary64 x.toModel.unpack y.toModel.unpack)) := rfl
  rw [hadd, hadd, add_comm_unpacked]

/-- The value of a difference. -/
theorem toRat?_sub_eq (hx : toRat? x = some a) (hy : toRat? y = some b) :
    toRat? (x - y) = finite (nearestDouble (a - b)) := by
  have hfits : Fits y.toModel.unpack.neg := by
    have hfits : Fits y.toModel.unpack := fits_unpack _
    revert hfits
    cases y.toModel.unpack <;> exact id
  have hneg : (-y).toModel.unpack = y.toModel.unpack.neg := unpack_toModel_ofModel_pack hfits
  have hsub : x - y = Float.ofModel (Float.Model.pack
      (UnpackedFloat.sub .binary64 x.toModel.unpack y.toModel.unpack)) := rfl
  have hadd : x + -y = Float.ofModel (Float.Model.pack
      (UnpackedFloat.add .binary64 x.toModel.unpack (-y).toModel.unpack)) := rfl
  rw [hsub, sub_eq_add_neg_unpacked, ← hneg, ← hadd, sub_eq_add_neg]
  exact toRat?_add_eq hx (toRat?_neg hy)

/-! ## How far rounding goes -/

theorem roundHalfEven_le_two_mul (num : Nat) {den : Nat} (hden : 0 < den) :
    (Decimal.roundHalfEven num den : Rat) ≤ 2 * (num / den) := by
  have hd : (0 : Rat) < den := by exact_mod_cast hden
  rcases Nat.lt_or_ge (2 * num) den with hless | hleast
  · have hzero : Decimal.roundHalfEven num den = 0 := by
      rw [Decimal.roundHalfEven, Nat.mod_eq_of_lt (by omega), if_pos hless]
      exact Nat.div_eq_of_lt (by omega)
    rw [hzero, Nat.cast_zero]
    positivity
  · have herror := (abs_le.mp (Decimal.abs_roundHalfEven_sub_le num hden)).2
    have hhalf : (1 / 2 : Rat) ≤ num / den := by
      rw [div_le_div_iff₀ (by norm_num) hd, one_mul, mul_comm]
      exact_mod_cast hleast
    linarith

theorem le_two_mul_roundHalfEven {num den : Nat} (hden : 0 < den) (h : den ≤ num) :
    (num / den : Rat) ≤ 2 * Decimal.roundHalfEven num den := by
  have hone : (1 : Rat) ≤ num / den := by
    rw [one_le_div (by exact_mod_cast hden)]
    exact_mod_cast h
  have herror := (abs_le.mp (Decimal.abs_roundHalfEven_sub_le num hden)).1
  linarith

/-- Below the normal range a size is a number of units `2 ^ -1074`, rounded to an integer. -/
theorem exists_units_of_lt {r : Rat} (h : |r| < 2 ^ (-1022 : Int)) :
    ∃ num den : Nat, 0 < den ∧ |r| = num / den * 2 ^ (-1074 : Int) ∧
      |nearestDouble r| = Decimal.roundHalfEven num den * 2 ^ (-1074 : Int) := by
  have hnonneg : (0 : Rat) ≤ |r| * 2 ^ (1074 : Int) := by positivity
  refine ⟨(|r| * 2 ^ (1074 : Int)).num.natAbs, (|r| * 2 ^ (1074 : Int)).den, Rat.den_pos _, ?_, ?_⟩
  · rw [natAbs_num_div_den hnonneg, mul_assoc, ← zpow_add₀ (by norm_num), add_neg_cancel,
      zpow_zero, mul_one]
  · have hsign : |(if r < 0 then -1 else 1 : Rat)| = 1 := by
      split <;> norm_num
    rw [nearestDouble, if_pos h, abs_mul, hsign, one_mul, abs_of_nonneg (by positivity)]

/-- Rounding at most doubles a size. -/
theorem abs_nearestDouble_le (r : Rat) : |nearestDouble r| ≤ 2 * |r| := by
  rcases lt_or_ge |r| (2 ^ (-1022 : Int)) with hless | hleast
  · obtain ⟨num, den, hden, hsize, hrounded⟩ := exists_units_of_lt hless
    rw [hsize, hrounded, ← mul_assoc]
    exact mul_le_mul_of_nonneg_right (roundHalfEven_le_two_mul num hden) (by positivity)
  · rw [nearestDouble_of_le hleast, abs_toDouble]
    exact toDouble_le_two_mul (abs_nonneg r)

/-- Rounding at most halves a size, unless it is smaller than any double. -/
theorem abs_le_nearestDouble {r : Rat} (h : (2 : Rat) ^ (-1074 : Int) ≤ |r|) :
    |r| ≤ 2 * |nearestDouble r| := by
  rcases lt_or_ge |r| (2 ^ (-1022 : Int)) with hless | hleast
  · obtain ⟨num, den, hden, hsize, hrounded⟩ := exists_units_of_lt hless
    rw [hsize] at h
    have hone : (1 : Rat) ≤ num / den :=
      le_of_mul_le_mul_right (by rwa [one_mul]) (by positivity : (0 : Rat) < 2 ^ (-1074 : Int))
    rw [one_le_div (by exact_mod_cast hden)] at hone
    rw [hsize, hrounded, ← mul_assoc]
    exact mul_le_mul_of_nonneg_right (le_two_mul_roundHalfEven hden (by exact_mod_cast hone))
      (by positivity)
  · have herror := (abs_le.mp (abs_toDouble_sub_le |r|)).1
    rw [abs_abs] at herror
    rw [nearestDouble_of_le hleast, abs_toDouble]
    norm_num at herror
    linarith [abs_nonneg r]

/-! ## Finite doubles -/

theorem isFinite_iff : x.isFinite = true ↔ ∃ a, toRat? x = some a := by
  refine ⟨fun h ↦ ?_, fun ⟨a, ha⟩ ↦ isFinite_of_toRat? ha⟩
  rw [toRat?_eq]
  have hfinite : x.toModel.unpack.isFinite = true := h
  cases hu : x.toModel.unpack with
  | notANumber | infinity s => simp [hu, UnpackedFloat.isFinite] at hfinite
  | zero s => exact ⟨0, rfl⟩
  | finite s m e hm => exact ⟨_, rfl⟩

/-- What has a value is neither infinite nor undefined. -/
theorem ordinary_of_toRat? (hx : toRat? x = some a) : x.isInf = false ∧ x.isNaN = false := by
  have hinf : x.isInf = x.toModel.unpack.isInf := rfl
  have hnan : x.isNaN = x.toModel.unpack.isNaN := rfl
  rw [hinf, hnan]
  rcases exists_unpack_of_toRat? hx with ⟨s, hu, -⟩ | ⟨s, m, e, hm, hu, -⟩ <;> rw [hu] <;>
    exact ⟨rfl, rfl⟩

/-- Finite doubles lie below the end of the range. -/
theorem abs_lt_of_toRat? (hx : toRat? x = some a) : |a| < 2 ^ (1024 : Int) := by
  obtain ⟨hnearest, hless⟩ := finite_eq_some.mp (finite_nearestDouble hx)
  rwa [hnearest] at hless

/-- No double is closer to zero than the least subnormal one. -/
theorem two_pow_le_abs_of_toRat? (hx : toRat? x = some a) (ha : a ≠ 0) :
    (2 : Rat) ^ (-1074 : Int) ≤ |a| := by
  rcases exists_unpack_of_toRat? hx with ⟨s, -, rfl⟩ | ⟨s, m, e, hm, -, hc, rfl⟩
  · exact absurd rfl ha
  · rw [apply_eq, mul_assoc, abs_mul, abs_unit, one_mul, abs_of_pos (by positivity)]
    calc (2 : Rat) ^ (-1074 : Int) ≤ 2 ^ e := zpow_le_zpow_right₀ (by norm_num) hc.least_le
      _ ≤ m * 2 ^ e := le_mul_of_one_le_left (by positivity) (by exact_mod_cast hm)

/-! ## Infinite doubles -/

/-- A double that is finite or infinite. -/
def IsNumber (x : Float) : Prop :=
  x.toModel.unpack ≠ .notANumber

theorem isNumber_of_toRat? (hx : toRat? x = some a) : IsNumber x := by
  rw [toRat?_eq] at hx
  intro hu
  rw [hu] at hx
  cases hx

/-- The sign of an unpacked number; of zeros and infinities, too. -/
def signOf? : UnpackedFloat → Option Sign
  | .notANumber => none
  | .infinity s => some s
  | .zero s => some s
  | .finite s _ _ _ => some s

/-- A double that is finite or infinite, and has the sign. -/
def HasSign (s : Sign) (x : Float) : Prop :=
  signOf? x.toModel.unpack = some s

theorem isNumber_iff : IsNumber x ↔ ∃ s, HasSign s x := by
  simp only [IsNumber, HasSign]
  cases x.toModel.unpack <;> simp [signOf?]

theorem hasSign_of_toRat? {s : Sign} (hx : toRat? x = some a) (ha : 0 < unit s * a) :
    HasSign s x := by
  rcases exists_unpack_of_toRat? hx with ⟨t, hu, rfl⟩ | ⟨t, m, e, hm, hu, -, rfl⟩
  · rw [mul_zero] at ha
    exact absurd ha (lt_irrefl 0)
  · rw [HasSign, hu, signOf?]
    have hsize : (0 : Rat) < m * 2 ^ e := by positivity
    rw [apply_eq, mul_assoc] at ha
    cases s <;> cases t <;> first | rfl | (norm_num [unit] at ha; linarith)

/-- Packing keeps the sign, also of a number too large for the bits. -/
theorem hasSign_ofModel_pack {u : UnpackedFloat} {s : Sign} (h : signOf? u = some s) :
    HasSign s (Float.ofModel (Float.Model.pack u)) := by
  have hcomponents (s : Sign) {e : BitVec 11} (m : BitVec 52) (he : e.toNat < 2047) :
      signOf? (UnpackedFloat.unpack .binary64 (packComponents .binary64 s e m)) = some s := by
    have hlt : m.toNat < 4503599627370496 := m.isLt
    have hinfinity : infinityBits = 2047 * 4503599627370496 := rfl
    rw [unpack_eq, magnitudeOf_packComponents, if_neg (by omega), if_neg (by omega),
      signOf_packComponents]
    split <;> rfl
  have hinfinity (s : Sign) :
      signOf? (UnpackedFloat.unpack .binary64 (UnpackedFloat.pack .binary64 (.infinity s))) =
        some s := by
    rw [unpack_pack (u := .infinity s) trivial]
    rfl
  change signOf? (UnpackedFloat.unpack .binary64 (UnpackedFloat.pack .binary64 u)) = some s
  cases u with
  | notANumber => cases h
  | infinity t => exact (hinfinity t).trans h
  | zero t => rwa [unpack_pack (u := .zero t) trivial]
  | finite t m e hm =>
    refine Eq.trans ?_ h
    delta UnpackedFloat.pack
    dsimp only
    split
    · exact hinfinity t
    · next hbiased =>
      split
      · refine hcomponents t _ ?_
        rw [BitVec.toNat_ofNat]
        omega
      · exact hcomponents t _ (by decide)

theorem signOf?_roundWithAccuracy (s : Sign) (m : Nat) (e : Int) (acc : Accuracy) :
    signOf? (roundWithAccuracy .binary64 s m e acc) = some s := by
  delta roundWithAccuracy
  dsimp only
  split <;> rfl

/-- A finite number that is positive, unpacked. -/
theorem exists_unpack_of_pos (hx : toRat? x = some a) (ha : 0 < a) :
    ∃ m e hm, x.toModel.unpack = .finite .positive m e hm := by
  have hsign : HasSign .positive x := hasSign_of_toRat? hx (by norm_num [unit, ha])
  rcases exists_unpack_of_toRat? hx with ⟨s, hu, rfl⟩ | ⟨s, m, e, hm, hu, -, -⟩
  · exact absurd ha (lt_irrefl 0)
  · rw [HasSign, hu] at hsign
    cases hsign
    exact ⟨m, e, hm, hu⟩

theorem HasSign.mul {s : Sign} (hx : HasSign s x) (hy : toRat? y = some b) (hb : 0 < b) :
    HasSign s (x * y) := by
  have hmul : x * y = Float.ofModel (Float.Model.pack
      (UnpackedFloat.mul .binary64 x.toModel.unpack y.toModel.unpack)) := rfl
  have hone (s : Sign) : s * .positive = s := by cases s <;> rfl
  obtain ⟨m, e, hm, hu⟩ := exists_unpack_of_pos hy hb
  rw [hmul, hu]
  refine hasSign_ofModel_pack ?_
  rw [HasSign] at hx
  cases h : x.toModel.unpack with
  | notANumber => rw [h] at hx; cases hx
  | infinity | zero =>
    rw [h] at hx
    simpa only [UnpackedFloat.mul, signOf?, hone] using hx
  | finite =>
    rw [h] at hx
    rw [UnpackedFloat.mul, signOf?_roundWithAccuracy, hone]
    exact hx

theorem HasSign.div {s : Sign} (hx : HasSign s x) (hy : toRat? y = some b) (hb : 0 < b) :
    HasSign s (x / y) := by
  have hdiv : x / y = Float.ofModel (Float.Model.pack
      (UnpackedFloat.div .binary64 x.toModel.unpack y.toModel.unpack)) := rfl
  have hone (s : Sign) : s / .positive = s := by cases s <;> rfl
  obtain ⟨m, e, hm, hu⟩ := exists_unpack_of_pos hy hb
  rw [hdiv, hu]
  refine hasSign_ofModel_pack ?_
  rw [HasSign] at hx
  cases h : x.toModel.unpack with
  | notANumber => rw [h] at hx; cases hx
  | infinity | zero =>
    rw [h] at hx
    simpa only [UnpackedFloat.div, signOf?, hone] using hx
  | finite =>
    rw [h] at hx
    rw [UnpackedFloat.div, signOf?_roundWithAccuracy, hone]
    exact hx

/-- Only what is no number differs from itself. -/
theorem IsNumber.beq_self (hx : IsNumber x) : (x == x) = true := by
  have hbeq : (x == x) = (x.toModel.unpack.compare x.toModel.unpack == some .eq) := rfl
  rw [hbeq]
  rw [IsNumber] at hx
  cases h : x.toModel.unpack with
  | notANumber => exact absurd h hx
  | infinity s => cases s <;> rfl
  | zero s => rfl
  | finite s m e hm => cases s <;> simp [UnpackedFloat.compare]

end Binary64
end Mensura
