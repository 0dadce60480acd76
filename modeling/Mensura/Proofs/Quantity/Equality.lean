import Mensura.Proofs.Binary64.Restored
import Mensura.Proofs.Quantity.Normal

/-!
# What equality says about magnitudes

A quantity is a mantissa and a power of ten of any size, but two of them are compared by their
values in base units, and these are doubles.  Within the range of the doubles the value is the
magnitude up to a few roundings, so quantities that count as equal have almost the same magnitude.
Beyond the range the value is infinite, whatever the magnitude is, and far below it is zero: there
only the signs are compared, or nothing at all.

* `Digits.value_cases`: the value is near the magnitude, or infinite and the magnitude is large.
* `same_magnitudes`: what equality says within the range, and what it comes to outside.
-/

set_option autoImplicit false

namespace Mensura

open Float.Model.UnpackedFloat

/-! ## Shifts to the end of the range and beyond -/

namespace Binary64

variable {x : Float} {r s : Rat} {e : Int}

theorem abs_mul_tenPow (r : Rat) (e : Int) : |r * 10 ^ e| = |r| * 10 ^ e := by
  rw [abs_mul, abs_of_pos (by positivity : (0 : Rat) < 10 ^ e)]

/-- A double leaves the range to the left of its point only. -/
theorem places_pos_of_overflow (hx : toRat? x = some r)
    (hlarge : 2 ^ (1024 : Int) * (1 + 2⁻¹ ^ 44) ≤ |r * 10 ^ e|) : 0 < e := by
  by_contra hnonpos
  have hpower : (10 : Rat) ^ e ≤ 1 := zpow_le_one_of_nonpos₀ (by norm_num) (by omega)
  have hsize : |r * 10 ^ e| ≤ |r| :=
    (abs_mul_tenPow r e).trans_le (mul_le_of_le_one_right (abs_nonneg r) hpower)
  have hmore : (2 : Rat) ^ (1024 : Int) ≤ 2 ^ (1024 : Int) * (1 + 2⁻¹ ^ 44) :=
    le_mul_of_one_le_right (by positivity) (by norm_num)
  exact absurd (abs_lt_of_toRat? hx) (not_lt.mpr (hmore.trans (hlarge.trans hsize)))

/-- Nor does a number with a digit before the point stay in the range for long. -/
theorem places_lt_of_small (hr : 1 ≤ |r|)
    (hsmall : |r * 10 ^ e| < 2 ^ (1024 : Int) * (1 + 2⁻¹ ^ 44)) : e < 309 := by
  by_contra hfar
  have hpower : (10 : Rat) ^ 309 ≤ 10 ^ e := by
    rw [← zpow_natCast]
    exact zpow_le_zpow_right₀ (by norm_num) (not_lt.mp hfar)
  have hsize : (10 : Rat) ^ 309 ≤ |r * 10 ^ e| := by
    rw [abs_mul_tenPow]
    exact hpower.trans (le_mul_of_one_le_left (by positivity) hr)
  have hless := two_pow_1024_le
  have hpos : (0 : Rat) < 2 ^ (1024 : Int) := by positivity
  generalize (10 : Rat) ^ 309 = bound at *
  generalize (2 : Rat) ^ (1024 : Int) = greatest at *
  generalize |r * 10 ^ e| = size at *
  norm_num at hsmall
  linarith

/-- A number with one digit before the point that is shifted out of the range. -/
theorem toRat?_scale10_of_overflow (hx : toRat? x = some r) (hr : 1 ≤ |r|)
    (hlarge : 2 ^ (1024 : Int) * (1 + 2⁻¹ ^ 44) ≤ |r * 10 ^ e|) :
    toRat? (scale10 x e) = none := by
  rcases le_or_gt 309 e with hfar | hnear
  · exact toRat?_scale10_of_large hx hr hfar
  have hpos := places_pos_of_overflow hx hlarge
  obtain ⟨k, rfl⟩ := Int.eq_ofNat_of_zero_le hpos.le
  obtain ⟨-, hplaces, hsteps⟩ := roundings_eq (n := k) (by omega) (by omega)
  refine (atLeast_scale10 hx hr hpos).toRat?_eq_none ?_
  rw [Int.natAbs_natCast]
  rw [zpow_natCast, hplaces] at hlarge
  generalize fullSteps k = steps at hsteps hlarge ⊢
  generalize restPlaces k = rest at hlarge ⊢
  have hpower : (1 - 2⁻¹ ^ 53 : Rat) ^ 33 ≤ (1 - 2⁻¹ ^ 53) ^ (steps + 1) :=
    pow_le_pow_of_le_one (by norm_num) (by norm_num) (by omega)
  calc (2 : Rat) ^ (1024 : Int)
      ≤ 2 ^ (1024 : Int) * ((1 + 2⁻¹ ^ 44) * (1 - 2⁻¹ ^ 53) ^ 33) :=
        le_mul_of_one_le_right (by positivity) (by norm_num)
    _ = 2 ^ (1024 : Int) * (1 + 2⁻¹ ^ 44) * (1 - 2⁻¹ ^ 53) ^ 33 := (mul_assoc _ _ _).symm
    _ ≤ |r * 10 ^ (22 * steps + rest)| * (1 - 2⁻¹ ^ 53) ^ (steps + 1) :=
        mul_le_mul hlarge hpower (pow_nonneg (by norm_num) 33) (abs_nonneg _)
    _ = |r| * (10 ^ 22 * (1 - 2⁻¹ ^ 53)) ^ steps * (10 ^ rest * (1 - 2⁻¹ ^ 53)) := by
        rw [abs_mul, abs_of_pos (by positivity : (0 : Rat) < 10 ^ (22 * steps + rest)), mul_pow,
          pow_add, pow_mul, pow_succ]
        ring

/-- A number that is shifted to the end of the range comes near its place, or is lost beyond. -/
theorem scale10_cases (hx : toRat? x = some r) (hr : 1 ≤ |r|) (hlow : -345 < e)
    (hsmall : |r * 10 ^ e| < 2 ^ (1024 : Int) * (1 + 2⁻¹ ^ 44)) :
    (∃ d, toRat? (scale10 x e) = some d ∧ Near 20 d (r * 10 ^ e)) ∨
      (toRat? (scale10 x e) = none ∧ 2 ^ (1024 : Int) ≤ |r * 10 ^ e| * (1 + 2⁻¹ ^ 45)) := by
  have hplaces := places_lt_of_small hr hsmall
  have hdouble : (2 : Rat) ^ (1025 : Int) = 2 ^ (1024 : Int) * 2 :=
    zpow_add_one₀ (by norm_num) 1024
  have hlast : |r * 10 ^ e| ≤ 2 ^ (1025 : Int) := by
    rw [hdouble]
    exact hsmall.le.trans (mul_le_mul_of_nonneg_left (by norm_num) (by positivity))
  obtain ⟨d, hd, hclose⟩ := exists_near_scale10 hx hr (by omega) hlast
  rcases lt_or_ge (|r * 10 ^ e| * (1 + 2⁻¹ ^ 45)) (2 ^ (1024 : Int)) with hless | hlarge
  · rw [(hclose.mono (by decide)).finite_eq hless] at hd
    exact .inl ⟨d, hd, hclose⟩
  · cases hvalue : toRat? (scale10 x e) with
    | none => exact .inr ⟨rfl, hlarge⟩
    | some c =>
      obtain ⟨rfl, -⟩ := finite_eq_some.mp (hd.symm.trans hvalue)
      exact .inl ⟨d, rfl, hclose⟩

/-- Zero is near what is far below the range. -/
theorem near_zero {n : Nat} (hr : |r| ≤ 10) (he : e ≤ -345) : Near n 0 (r * 10 ^ e) := by
  have hunit : (10 : Rat) ^ (-344 : Int) ≤ 3 / 5 * 2 ^ (-1074 : Int) := by
    have hend := two_pow_1024_le
    have hsplit : (2 : Rat) ^ (1074 : Int) = 2 ^ (1024 : Int) * 2 ^ (50 : Int) :=
      zpow_add₀ (by norm_num) 1024 50
    have hlarge : (2 : Rat) ^ (1074 : Int) ≤ 3 / 5 * 10 ^ (344 : Int) := by
      calc (2 : Rat) ^ (1074 : Int) ≤ 10 ^ 309 * (9 / 10) * 2 ^ (50 : Int) := by
            rw [hsplit]
            exact mul_le_mul_of_nonneg_right hend (by positivity)
        _ ≤ 10 ^ 309 * (3 / 5 * 10 ^ 35) := by
            rw [mul_assoc]
            exact mul_le_mul_of_nonneg_left (by norm_num) (by positivity)
        _ = 3 / 5 * 10 ^ (344 : Int) := by
            rw [mul_left_comm, ← pow_add]
            exact congrArg (3 / 5 * ·) (zpow_natCast 10 344).symm
    rw [zpow_neg, zpow_neg, inv_le_iff_one_le_mul₀ (by positivity)]
    rw [mul_assoc, mul_comm (2 ^ (1074 : Int))⁻¹, ← mul_assoc, ← div_eq_mul_inv,
      one_le_div (by positivity)]
    exact hlarge
  have hsize : |r * 10 ^ e| ≤ 10 ^ (-344 : Int) := by
    rw [abs_mul_tenPow, show (-344 : Int) = 1 + -345 from rfl, zpow_one_add₀ (by norm_num)]
    exact mul_le_mul hr (zpow_le_zpow_right₀ (by norm_num) he) (by positivity) (by norm_num)
  rw [Near, zero_sub, abs_neg]
  exact (hsize.trans hunit).trans (le_add_of_nonneg_left (by positivity))

/-! ## Signs -/

theorem exists_unit_mul_pos (hr : r ≠ 0) : ∃ σ, 0 < unit σ * r := by
  rcases hr.lt_or_gt with hneg | hpos
  · exact ⟨.negative, by norm_num [unit, hneg]⟩
  · exact ⟨.positive, by norm_num [unit, hpos]⟩

theorem eq_iff_of_unit_mul_pos {σ τ : Sign} (hσ : 0 < unit σ * r) (hτ : 0 < unit τ * s) :
    σ = τ ↔ 0 < r * s := by
  cases σ <;> cases τ <;> simp only [unit, neg_one_mul, one_mul, neg_pos] at hσ hτ
  · exact iff_of_true rfl (mul_pos_of_neg_of_neg hσ hτ)
  · exact iff_of_false (by simp) (mul_neg_of_neg_of_pos hσ hτ).not_gt
  · exact iff_of_false (by simp) (mul_neg_of_pos_of_neg hσ hτ).not_gt
  · exact iff_of_true rfl (mul_pos hσ hτ)

end Binary64

namespace Quantity

open Binary64

variable {a b q : Quantity Float} {m n : Rat}

/-! ## Values -/

/-- A quantity of base units as normalizing leaves it, of mantissa `m`. -/
structure Digits (q : Quantity Float) (m : Rat) : Prop where
  mantissa : toRat? q.mantissa = some m
  multiplier : toRat? q.unit.multiplier = some 1
  digit : m = 0 ∨ 1 ≤ |m| ∧ |m| ≤ 10

/-- What normalizing leaves is of this kind, if the multiplier is one. -/
theorem exists_digits_of_normalize {p : Quantity Float} (h : p.normalize = .ok q)
    (hunit : toRat? q.unit.multiplier = some 1) : ∃ m, Digits q m := by
  cases hx : toRat? p.mantissa with
  | none =>
    rw [normalize_not_finite hx] at h
    cases h
  | some v =>
    rcases eq_or_ne v 0 with rfl | hv
    · have hzero : p.normalize = .ok p := if_pos ((isZero_iff hx).mpr rfl)
      obtain rfl : p = q := Except.ok.inj (hzero.symm.trans h)
      exact ⟨0, hx, hunit, .inl rfl⟩
    · obtain ⟨ρ, hρ, hne⟩ := exists_multiplier p.unit
      obtain ⟨n, m, μ, hn, hshifted, -⟩ := exists_shifted hx hv hρ hne
      obtain rfl : n = q := Except.ok.inj (hn.symm.trans h)
      exact ⟨m, hshifted.mantissa, hunit,
        .inr ⟨hshifted.one_le_mantissa, hshifted.mantissa_le_ten⟩⟩

/-- The magnitude of a mantissa in base units. -/
def magnitude (q : Quantity Float) (m : Rat) : Rat :=
  m * 10 ^ q.unit.decExp

theorem Digits.toRat?_product (h : Digits q m) :
    toRat? (q.mantissa * q.unit.multiplier) = some m := by
  rw [toRat?_mul_eq h.mantissa h.multiplier, mul_one, finite_nearestDouble h.mantissa]

/-- The value is near the magnitude, unless it is infinite. -/
theorem Digits.value_cases (h : Digits q m) :
    (∃ d, toRat? q.value = some d ∧ Near 20 d (magnitude q m)) ∨
      (toRat? q.value = none ∧ 2 ^ (1024 : Int) ≤ |magnitude q m| * (1 + 2⁻¹ ^ 45)) := by
  have hproduct := h.toRat?_product
  change (∃ d, toRat? (scale10 _ q.unit.decExp) = _ ∧ _) ∨ toRat? (scale10 _ q.unit.decExp) = _ ∧ _
  rw [magnitude]
  generalize q.unit.decExp = e
  rcases h.digit with rfl | ⟨hone, hten⟩
  · left
    refine ⟨0, toRat?_scale10_of_zero hproduct e, ?_⟩
    rw [zero_mul]
    exact (Near.refl 0).mono (by decide)
  rcases le_or_gt e (-345) with hfar | hnear
  · exact .inl ⟨0, toRat?_scale10_of_small hproduct hten hfar, near_zero hten hfar⟩
  rcases le_or_gt (2 ^ (1024 : Int) * (1 + 2⁻¹ ^ 44)) |m * 10 ^ e| with hlarge | hsmall
  · refine .inr ⟨toRat?_scale10_of_overflow hproduct hone hlarge, ?_⟩
    calc (2 : Rat) ^ (1024 : Int) ≤ 2 ^ (1024 : Int) * (1 + 2⁻¹ ^ 44) :=
          le_mul_of_one_le_right (by positivity) (by norm_num)
      _ ≤ |m * 10 ^ e| := hlarge
      _ ≤ |m * 10 ^ e| * (1 + 2⁻¹ ^ 45) :=
          le_mul_of_one_le_right (abs_nonneg _) (by norm_num)
  · exact scale10_cases hproduct hone hnear hsmall

theorem Digits.value_of_large (h : Digits q m)
    (hlarge : 2 ^ (1024 : Int) * (1 + 2⁻¹ ^ 44) ≤ |magnitude q m|) :
    m ≠ 0 ∧ toRat? q.value = none := by
  have hne : m ≠ 0 := by
    rintro rfl
    rw [magnitude, zero_mul, abs_zero] at hlarge
    exact absurd hlarge (not_le.mpr (mul_pos (by positivity) (by norm_num)))
  exact ⟨hne, toRat?_scale10_of_overflow h.toRat?_product (h.digit.resolve_left hne).1 hlarge⟩

theorem Digits.value_of_small (h : Digits q m) (hsmall : |magnitude q m| ≤ 2 ^ (-1076 : Int)) :
    toRat? q.value = some 0 := by
  have hunit : (0 : Rat) < 2 ^ (-1074 : Int) := by positivity
  have hquarter : (2 : Rat) ^ (-1076 : Int) = 2 ^ (-2 : Int) * 2 ^ (-1074 : Int) :=
    zpow_add₀ (by norm_num) (-2) (-1074)
  rcases h.value_cases with ⟨d, hd, hnear⟩ | ⟨-, hend⟩
  · have hless : |d - 0| < 2 ^ (-1074 : Int) := by
      have hsize := abs_sub_abs_le_abs_sub d (magnitude q m)
      rw [Near] at hnear
      rw [hquarter] at hsmall
      rw [sub_zero]
      generalize (2 : Rat) ^ (-1074 : Int) = unit at *
      norm_num at hnear hsmall
      linarith
    rw [hd, eq_of_abs_sub_lt hd toRat?_zero hless]
  · have hone : (1 : Rat) ≤ 2 ^ (1024 : Int) := one_le_zpow₀ (by norm_num) (by norm_num)
    have hless : (2 : Rat) ^ (-1076 : Int) ≤ 1 / 4 := by
      rw [hquarter]
      have hsmall : (2 : Rat) ^ (-1074 : Int) ≤ 1 :=
        zpow_le_one_of_nonpos₀ (by norm_num) (by norm_num)
      generalize (2 : Rat) ^ (-1074 : Int) = unit at *
      norm_num
      linarith
    generalize (2 : Rat) ^ (1024 : Int) = greatest at *
    norm_num at hend
    linarith

/-- The value has the sign of the mantissa, also if it is infinite or vanishes. -/
theorem Digits.exists_sign (h : Digits q m) (hm : m ≠ 0) :
    ∃ σ, 0 < Binary64.unit σ * m ∧ HasSign σ q.value := by
  obtain ⟨σ, hσ⟩ := exists_unit_mul_pos hm
  exact ⟨σ, hσ, (hasSign_of_toRat? h.toRat?_product hσ).scale10 _⟩

/-! ## Equality -/

/-- Both zero, or of one sign and of magnitudes that are less than one percent apart. -/
structure SameMagnitude (a b : Quantity Float) (m n : Rat) : Prop where
  zero_iff : m = 0 ↔ n = 0
  sign : m ≠ 0 → 0 < m * n
  low : m ≠ 0 → 99 / 100 * |magnitude b n| < |magnitude a m|
  high : m ≠ 0 → |magnitude a m| < 101 / 100 * |magnitude b n|

theorem same_eq (hdim : a.dim = b.dim) : a.same b = close a.value b.value := by
  rw [same, hdim, decide_eq_true rfl, Bool.true_and]
  rfl

/-- Magnitudes of close values, one of which has digits enough. -/
theorem abs_sub_lt_of_close {r s c d : Rat} (hc : Near 20 c r) (hd : Near 20 d s)
    (hclose : |d - c| ≤ |c| * (1 / 10 ^ 11) ∨ |d - c| ≤ |d| * (1 / 10 ^ 11))
    (hmany : 2 ^ (-1066 : Int) ≤ |r| ∨ 2 ^ (-1066 : Int) ≤ |s|) :
    |r - s| < 1 / 150 * |r| ∧ |r - s| < 1 / 150 * |s| := by
  have hunits : (2 : Rat) ^ (-1066 : Int) = 2 ^ (8 : Int) * 2 ^ (-1074 : Int) :=
    zpow_add₀ (by norm_num) 8 (-1074)
  have hunit : (0 : Rat) < 2 ^ (-1074 : Int) := by positivity
  have hsize := abs_sub_abs_le_abs_sub c r
  have hsize' := abs_sub_abs_le_abs_sub d s
  have hapart := (abs_le.mp (abs_abs_sub_abs_le r s)).1
  have hapart' := (abs_le.mp (abs_abs_sub_abs_le r s)).2
  have htriangle : |r - s| ≤ |c - r| + |d - c| + |d - s| := by
    have hfirst := abs_sub_le r c s
    have hsecond := abs_sub_le c d s
    rw [abs_sub_comm r c] at hfirst
    rw [abs_sub_comm c d] at hsecond
    linarith
  rw [Near] at hc hd
  rw [hunits] at hmany
  have hr := abs_nonneg r
  have hs := abs_nonneg s
  generalize (2 : Rat) ^ (-1074 : Int) = unit at *
  generalize |r - s| = apart at *
  generalize |c - r| = lost at *
  generalize |d - s| = lost' at *
  generalize |d - c| = between at *
  generalize |r| = size at *
  generalize |s| = size' at *
  norm_num at hc hd hclose hmany
  rcases hmany with hmany | hmany <;> rcases hclose with hclose | hclose <;>
    constructor <;> linarith

theorem magnitude_mul_pos : 0 < magnitude a m * magnitude b n ↔ 0 < m * n := by
  have hpower : (0 : Rat) < 10 ^ a.unit.decExp * 10 ^ b.unit.decExp := by positivity
  rw [magnitude, magnitude, mul_mul_mul_comm, mul_pos_iff_of_pos_right hpower]

theorem sameMagnitude_of_near {c d : Rat} (hc : Near 20 c (magnitude a m))
    (hd : Near 20 d (magnitude b n))
    (hclose : |d - c| ≤ |c| * (1 / 10 ^ 11) ∨ |d - c| ≤ |d| * (1 / 10 ^ 11))
    (hmany : 2 ^ (-1066 : Int) ≤ |magnitude a m| ∨ 2 ^ (-1066 : Int) ≤ |magnitude b n|) :
    SameMagnitude a b m n := by
  obtain ⟨hapart, hapart'⟩ := abs_sub_lt_of_close hc hd hclose hmany
  have hsign : 0 < m * n := by
    rw [← magnitude_mul_pos (a := a) (b := b)]
    obtain ⟨hlow, hhigh⟩ := abs_lt.mp hapart
    rcases lt_trichotomy (magnitude a m) 0 with hneg | hzero | hpos
    · rw [abs_of_neg hneg] at hlow hhigh
      exact mul_pos_of_neg_of_neg hneg (by linarith)
    · rw [hzero, abs_zero, mul_zero] at hapart
      exact absurd hapart (abs_nonneg _).not_gt
    · rw [abs_of_pos hpos] at hlow hhigh
      exact mul_pos hpos (by linarith)
  have hne := mul_ne_zero_iff.mp hsign.ne'
  obtain ⟨hlow, hhigh⟩ := abs_le.mp (abs_abs_sub_abs_le (magnitude a m) (magnitude b n))
  refine ⟨iff_of_false hne.1 hne.2, fun _ ↦ hsign, fun _ ↦ by linarith, fun _ ↦ by linarith⟩

/-- **Quantities that count as equal have almost the same magnitude**, if one of them lies above
the last few subnormal doubles and one of them below the end of the range.  Beyond the range the
quantities of one sign are all equal, and so are those that are too small for a double. -/
theorem same_magnitudes (ha : Digits a m) (hb : Digits b n) (hdim : a.dim = b.dim) :
    (a.same b = true →
      2 ^ (-1066 : Int) ≤ |magnitude a m| ∨ 2 ^ (-1066 : Int) ≤ |magnitude b n| →
      |magnitude a m| * (1 + 2⁻¹ ^ 45) < 2 ^ (1024 : Int) ∨
        |magnitude b n| * (1 + 2⁻¹ ^ 45) < 2 ^ (1024 : Int) →
      SameMagnitude a b m n) ∧
    (2 ^ (1024 : Int) * (1 + 2⁻¹ ^ 44) ≤ |magnitude a m| →
      2 ^ (1024 : Int) * (1 + 2⁻¹ ^ 44) ≤ |magnitude b n| → (a.same b = true ↔ 0 < m * n)) ∧
    (|magnitude a m| ≤ 2 ^ (-1076 : Int) → |magnitude b n| ≤ 2 ^ (-1076 : Int) →
      a.same b = true) := by
  rw [same_eq hdim]
  refine ⟨fun hclose hmany hfinite ↦ ?_, fun hlarge hlarge' ↦ ?_, fun hsmall hsmall' ↦ ?_⟩
  · rcases ha.value_cases with ⟨c, hc, hnear⟩ | ⟨hc, hend⟩ <;>
      rcases hb.value_cases with ⟨d, hd, hnear'⟩ | ⟨hd, hend'⟩
    · exact sameMagnitude_of_near hnear hnear' (abs_sub_le_of_close hc hd hclose) hmany
    · rw [close_of_not_finite (.inr hd), not_finite_beq hc hd] at hclose
      cases hclose
    · rw [close_of_not_finite (.inl hc), beq_of_not_finite hc hd] at hclose
      cases hclose
    · rcases hfinite with hless | hless
      · exact absurd hend (not_le.mpr hless)
      · exact absurd hend' (not_le.mpr hless)
  · obtain ⟨hm, hvalue⟩ := ha.value_of_large hlarge
    obtain ⟨hn, hvalue'⟩ := hb.value_of_large hlarge'
    obtain ⟨σ, hσ, hsign⟩ := ha.exists_sign hm
    obtain ⟨τ, hτ, hsign'⟩ := hb.exists_sign hn
    rw [close_of_not_finite (.inl hvalue), hsign.beq_iff hsign' hvalue hvalue',
      eq_iff_of_unit_mul_pos hσ hτ]
  · have hzero := (beq_iff (ha.value_of_small hsmall) (hb.value_of_small hsmall')).mpr rfl
    rw [close, hzero, Bool.true_or]

/-- A power of ten of metres. -/
def decimalMetres (e : Int) : Quantity Float :=
  ⟨Scalar.ofNat 1, .decimal (.base .length) e⟩

theorem digits_decimalMetres (e : Int) : Digits (decimalMetres e) 1 :=
  ⟨toRat?_ofNat_one, toRat?_ofNat_one, .inr (by norm_num)⟩

theorem normalize_decimalMetres (e : Int) : (decimalMetres e).normalize = .ok (decimalMetres e) :=
  Shifted.normalize_eq_self (m := 1) (μ := 1) ⟨toRat?_ofNat_one, toRat?_ofNat_one, by norm_num,
    by norm_num, le_rfl, by norm_num⟩ (by norm_num) (by norm_num)

/-- Ten hundred metres and a thousand metres count as equal, and are. -/
theorem same_magnitudes_thousand_metres :
    ∃ b, Digits b 10 ∧ (decimalMetres 3).same b = true ∧
      SameMagnitude (decimalMetres 3) b 1 10 := by
  obtain ⟨b, hb⟩ : ∃ b : Quantity Float, ⟨Scalar.ofNat 10, .decimal (.base .length) 2⟩ = b :=
    ⟨_, rfl⟩
  have hten : toRat? (Scalar.ofNat 10 : Float) = some 10 := by decide +kernel
  have hdigits : Digits b 10 := hb ▸ ⟨hten, toRat?_ofNat_one, .inr (by norm_num)⟩
  have hsame : (decimalMetres 3).same b = true := by
    rw [← hb]
    decide +kernel
  have hmagnitude : |magnitude (decimalMetres 3) 1| = 10 ^ 3 := by
    norm_num [magnitude, decimalMetres, PhysUnit.decimal]
  refine ⟨b, hdigits, hsame, (same_magnitudes (digits_decimalMetres 3) hdigits (hb ▸ rfl)).1 hsame
    (.inl ?_) (.inl ?_)⟩
  · rw [hmagnitude]
    exact (zpow_le_one_of_nonpos₀ (by norm_num) (by norm_num)).trans (by norm_num)
  · rw [hmagnitude]
    exact (by norm_num : (10 ^ 3 * (1 + 2⁻¹ ^ 45) : Rat) < 2 ^ (10 : Int)).trans
      (zpow_lt_zpow_right₀ (by norm_num) (by norm_num))

/-- **Powers of ten beyond the range count as equal**, even if one is a googol of the other. -/
theorem not_every_same_magnitude : ¬ ∀ (a b : Quantity Float) (m n : Rat),
    a.normalize = .ok a → b.normalize = .ok b → Digits a m → Digits b n → a.dim = b.dim →
      a.same b = true → SameMagnitude a b m n := by
  intro h
  have hsame := h (decimalMetres 400) (decimalMetres 500) 1 1 (normalize_decimalMetres 400)
    (normalize_decimalMetres 500) (digits_decimalMetres 400) (digits_decimalMetres 500) rfl
    (by decide +kernel)
  have hlow := hsame.low one_ne_zero
  have hsize (e : Int) : |magnitude (decimalMetres e) 1| = 10 ^ e := by
    rw [magnitude, one_mul]
    exact abs_of_pos (by positivity : (0 : Rat) < 10 ^ e)
  have hgoogol : (10 : Rat) ^ (500 : Int) = 10 ^ (100 : Int) * 10 ^ (400 : Int) :=
    zpow_add₀ (by norm_num) 100 400
  have hpos : (0 : Rat) < 10 ^ (400 : Int) := by positivity
  rw [hsize, hsize, hgoogol] at hlow
  generalize (10 : Rat) ^ (400 : Int) = size at hlow hpos
  norm_num at hlow
  linarith

end Quantity
end Mensura
