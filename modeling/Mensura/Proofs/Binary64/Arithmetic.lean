import Mensura.Proofs.Binary64.Rounding
import Mensura.Proofs.Binary64.Unpacked

/-!
# The arithmetic of doubles, on rational numbers

A product or a quotient of doubles is that of their values, rounded once.  The arithmetic carries
a mantissa with two bits for what was shifted out of it; `extended num den` is the one that stands
for a whole quotient, and every step of the arithmetic keeps this form.

* `toRat?_mul`, `toRat?_div`: products and quotients.
* `toRat?_nearest`: the double nearest to a quotient.
-/

set_option autoImplicit false

open Float.Model Float.Model.UnpackedFloat

namespace Mensura
namespace Binary64

/-! ## Extended mantissas -/

/-- The extended mantissa of a quotient. -/
def extended (num den : Nat) : ExtendedMantissa where
  mantissa := num / den
  roundBit := decide (den ≤ 2 * (num % den))
  stickyBit := decide (num % den ≠ 0 ∧ 2 * (num % den) ≠ den)

theorem shiftRightOne_extended (num : Nat) {den : Nat} (hden : 0 < den) :
    (extended num den).shiftRightOne = extended num (den * 2) := by
  have hdiv : num / den / 2 = num / (den * 2) := Nat.div_div_eq_div_mul num den 2
  have hmod : num % (den * 2) = num % den + den * (num / den % 2) := Nat.mod_mul
  have hlt : num % den < den := Nat.mod_lt num hden
  rw [ExtendedMantissa.shiftRightOne, extended, extended, hmod]
  rcases Nat.mod_two_eq_zero_or_one (num / den) with hbit | hbit
  · rw [hbit, hdiv, Nat.mul_zero, Nat.add_zero, ExtendedMantissa.mk.injEq]
    refine ⟨rfl, ?_, ?_⟩
    · simp
      omega
    · rw [Bool.eq_iff_iff, Bool.or_eq_true]
      simp only [decide_eq_true_eq]
      omega
  · rw [hbit, hdiv, Nat.mul_one, ExtendedMantissa.mk.injEq]
    refine ⟨rfl, ?_, ?_⟩
    · simp
      omega
    · rw [Bool.eq_iff_iff, Bool.or_eq_true]
      simp only [decide_eq_true_eq]
      omega

theorem shiftRight_extended (num k : Nat) {den : Nat} (hden : 0 < den) :
    extended num den >>> k = extended num (den * 2 ^ k) := by
  induction k with
  | zero => simp [HShiftRight.hShiftRight, Nat.repeat]
  | succ k ih =>
    change (extended num den >>> k).shiftRightOne = _
    rw [ih, shiftRightOne_extended num (by positivity), Nat.mul_assoc, ← Nat.pow_succ]

/-- The two bits say on which side of the half the rest lies. -/
theorem accuracy_extended (num : Nat) {den : Nat} (hden : 0 < den) :
    (extended num den).accuracy = accuracyOfFraction (num % den) den := by
  have hlt : num % den < den := Nat.mod_lt num hden
  rw [accuracyOfFraction, extended]
  split
  · next hzero => simp [ExtendedMantissa.accuracy, hzero, hden.ne']
  · next hrest =>
    rcases Nat.lt_trichotomy (2 * (num % den)) den with hless | hequal | hgreater
    · have hround : ¬den ≤ 2 * (num % den) := by omega
      have hsticky : num % den ≠ 0 ∧ 2 * (num % den) ≠ den := ⟨hrest, by omega⟩
      simp [ExtendedMantissa.accuracy, hround, hsticky, Nat.compare_eq_lt.mpr hless]
    · have hround : den ≤ 2 * (num % den) := by omega
      have hsticky : ¬(num % den ≠ 0 ∧ 2 * (num % den) ≠ den) := by omega
      simp [ExtendedMantissa.accuracy, hround, hsticky, Nat.compare_eq_eq.mpr hequal]
    · have hround : den ≤ 2 * (num % den) := by omega
      have hsticky : num % den ≠ 0 ∧ 2 * (num % den) ≠ den := ⟨hrest, by omega⟩
      simp [ExtendedMantissa.accuracy, hround, hsticky, Nat.compare_eq_gt.mpr hgreater]

/-- Rounding an extended mantissa is rounding the quotient. -/
theorem roundedMantissa_extended (num : Nat) {den : Nat} (hden : 0 < den) :
    (extended num den).roundedMantissa = Decimal.roundHalfEven num den := by
  have hmantissa : (extended num den).mantissa = num / den := rfl
  rw [ExtendedMantissa.roundedMantissa, accuracy_extended num hden, accuracyOfFraction,
    Decimal.roundHalfEven, hmantissa]
  split
  · next hzero => rw [hzero, Nat.mul_zero, if_pos hden, Accuracy.roundToNearestEven]
  · rcases Nat.lt_trichotomy (2 * (num % den)) den with hless | hequal | hgreater
    · rw [Nat.compare_eq_lt.mpr hless, Accuracy.roundToNearestEven, if_pos hless]
    · rw [Nat.compare_eq_eq.mpr hequal, Accuracy.roundToNearestEven, if_neg (by omega),
        if_neg (by omega)]
      split <;> omega
    · rw [Nat.compare_eq_gt.mpr hgreater, Accuracy.roundToNearestEven, if_neg (by omega),
        if_pos hgreater]

theorem ofMantissaAndAccuracy_accuracy (em : ExtendedMantissa) :
    ExtendedMantissa.ofMantissaAndAccuracy em.mantissa em.accuracy = em := by
  obtain ⟨m, r, s⟩ := em
  cases r <;> cases s <;> rfl

theorem accuracy_extended_one (m : Nat) : (extended m 1).accuracy = .exact := by
  rw [accuracy_extended m Nat.one_pos, accuracyOfFraction, Nat.mod_one, if_pos rfl]

/-! ## Rounding -/

/-- The sizes at which doubles have fifty-three digits, up to the last power of two. -/
structure Normal (r : Rat) : Prop where
  least_le : (2 : Rat) ^ (-1022 : Int) ≤ |r|
  lt_greatest : |r| < (2 : Rat) ^ (1023 : Int)

theorem Normal.ne_zero {r : Rat} (h : Normal r) : r ≠ 0 := by
  rintro rfl
  have hleast := h.least_le
  rw [abs_zero] at hleast
  exact absurd hleast (not_le.mpr (by positivity))

/-- Sizes from `10 ^ -30` to `10 ^ 30` are well inside the range. -/
theorem Normal.of_bounds {r : Rat} (hlow : 1 / 10 ^ 30 ≤ |r|) (hhigh : |r| ≤ 10 ^ 30) :
    Normal r where
  least_le := by
    calc (2 : Rat) ^ (-1022 : Int) ≤ 2 ^ (-100 : Int) :=
          zpow_le_zpow_right₀ (by norm_num) (by norm_num)
      _ ≤ 1 / 10 ^ 30 := by norm_num
      _ ≤ |r| := hlow
  lt_greatest := by
    calc |r| ≤ 10 ^ 30 := hhigh
      _ < 2 ^ (100 : Int) := by norm_num
      _ ≤ 2 ^ (1023 : Int) := zpow_le_zpow_right₀ (by norm_num) (by norm_num)

/-- A quotient with enough digits is shifted to fifty-three of them. -/
theorem shiftToTargetExponent_extended (num : Nat) {den : Nat} {e : Int} (hden : 0 < den)
    (hdigits : 2 ^ 52 ≤ num / den) (hlow : -1022 ≤ (num / den).log2 + e) :
    shiftToTargetExponent .binary64 (num / den) e (extended num den).accuracy =
      (extended num (den * 2 ^ ((num / den).log2 - 52)), e + ((num / den).log2 - 52 : Nat)) := by
  have hlog : 52 ≤ (num / den).log2 := (Nat.le_log2 (by omega)).mpr hdigits
  have htarget : Format.binary64.targetExponent (totalExponent (num / den) e) =
      e + ((num / den).log2 - 52 : Nat) := by
    change max (((num / den).log2 : Int) + 1 + e - 53) (-1074) = _
    omega
  have hshift : (e + ((num / den).log2 - 52 : Nat) - e).toNat = (num / den).log2 - 52 := by omega
  have hmantissa : ExtendedMantissa.ofMantissaAndAccuracy (num / den) (extended num den).accuracy =
      extended num den := ofMantissaAndAccuracy_accuracy (extended num den)
  rw [shiftToTargetExponent, shiftToExponent, htarget, hshift, hmantissa,
    shiftRight_extended _ _ hden]

/-- Fifty-three digits of a number that is not too small. -/
theorem exponent_of_least {q : Rat} {e : Int} (hhigh : q < 2 ^ 53)
    (hleast : (2 : Rat) ^ (-1022 : Int) ≤ q * 2 ^ e) : -1074 ≤ e := by
  have hless : (2 : Rat) ^ (-1022 : Int) < 2 ^ (53 + e) := by
    rw [zpow_add₀ (by norm_num)]
    exact hleast.trans_lt (mul_lt_mul_of_pos_right (by exact_mod_cast hhigh) (by positivity))
  have := (zpow_lt_zpow_iff_right₀ (by norm_num : (1 : Rat) < 2)).mp hless
  omega

/-- Fifty-three digits and an exponent in the normal range. -/
theorem exponent_of_normal {q : Rat} {e : Int} (hlow : 2 ^ 52 ≤ q) (hhigh : q < 2 ^ 53)
    (hrange : Normal (q * 2 ^ e)) : -1074 ≤ e ∧ e ≤ 970 := by
  have hpos : 0 < q * 2 ^ e := by positivity
  obtain ⟨hleast, hgreatest⟩ := hrange
  rw [abs_of_pos hpos] at hleast hgreatest
  refine ⟨exponent_of_least hhigh hleast, ?_⟩
  have hless : (2 : Rat) ^ (52 + e) < 2 ^ (1023 : Int) := by
    rw [zpow_add₀ (by norm_num)]
    exact (mul_le_mul_of_nonneg_right (by exact_mod_cast hlow) (by positivity)).trans_lt hgreatest
  have := (zpow_lt_zpow_iff_right₀ (by norm_num : (1 : Rat) < 2)).mp hless
  omega

/-- Digits rounded up to the next power of two have one place more than their room. -/
theorem shiftToTargetExponent_rounded {m : Nat} {e : Int} (hlow : 2 ^ 52 ≤ m) (hhigh : m ≤ 2 ^ 53)
    (hleast : -1074 ≤ e) :
    ∃ m' e', (shiftToTargetExponent .binary64 m e .exact).1.mantissa = m' ∧
      (shiftToTargetExponent .binary64 m e .exact).2 = e' ∧ 2 ^ 52 ≤ m' ∧ m' < 2 ^ 53 ∧
      e ≤ e' ∧ e' ≤ e + 1 ∧ (m' : Rat) * 2 ^ e' = m * 2 ^ e := by
  have hlog : 52 ≤ m.log2 := (Nat.le_log2 (by omega)).mpr hlow
  have hshift := shiftToTargetExponent_extended m (e := e) Nat.one_pos
    (by rwa [Nat.div_one]) (by rw [Nat.div_one]; omega)
  rw [Nat.div_one, accuracy_extended_one] at hshift
  rw [hshift]
  rcases Nat.lt_or_eq_of_le hhigh with hless | rfl
  · have hlog' : m.log2 = 52 := by
      have := (Nat.log2_lt (by omega)).mpr hless
      omega
    refine ⟨m, e, ?_, ?_, hlow, hless, le_refl e, by omega, rfl⟩
    · simp [hlog', extended]
    · simp [hlog']
  · have hlog' : (2 ^ 53 : Nat).log2 = 53 := Nat.log2_two_pow
    refine ⟨2 ^ 52, e + 1, ?_, ?_, le_refl _, by norm_num, by omega, le_refl _, ?_⟩
    · rw [hlog']
      rfl
    · rw [hlog']
      rfl
    · rw [zpow_add₀ (by norm_num)]
      norm_num
      ring

/-- Rounding shifts, rounds, and shifts once more. -/
theorem roundWithAccuracy_eq_finite (s : Sign) {digits m : Nat} {e e₁ e' : Int} {a : Accuracy}
    {shifted : ExtendedMantissa}
    (hshift : shiftToTargetExponent .binary64 digits e a = (shifted, e₁))
    (hm : (shiftToTargetExponent .binary64 shifted.roundedMantissa e₁ .exact).1.mantissa = m)
    (he : (shiftToTargetExponent .binary64 shifted.roundedMantissa e₁ .exact).2 = e')
    (hpos : 0 < m) : roundWithAccuracy .binary64 s digits e a = .finite s m e' hpos := by
  subst hm he
  delta roundWithAccuracy
  rw [hshift]
  exact dif_neg hpos.ne'

/-- Rounding a quotient with enough digits, were there no largest double. -/
theorem roundWithAccuracy_full {num den : Nat} {e : Int} (s : Sign) (hden : 0 < den)
    (hdigits : 2 ^ 52 ≤ num / den) (hleast : (2 : Rat) ^ (-1022 : Int) ≤ num / den * 2 ^ e) :
    ∃ m e' hm, roundWithAccuracy .binary64 s (num / den) e (extended num den).accuracy =
        .finite s m e' hm ∧ 2 ^ 52 ≤ m ∧ m < 2 ^ 53 ∧ -1074 ≤ e' ∧
      (m : Rat) * 2 ^ e' = toDouble (num / den * 2 ^ e) := by
  obtain ⟨k, hk⟩ : ∃ k, (num / den).log2 = 52 + k :=
    Nat.exists_eq_add_of_le ((Nat.le_log2 (by omega)).mpr hdigits)
  have hden' : 0 < den * 2 ^ k := by positivity
  have hlow : 2 ^ 52 * (den * 2 ^ k) ≤ num := by
    have hself := Nat.log2_self_le (n := num / den) (by omega)
    rw [hk, Nat.le_div_iff_mul_le hden] at hself
    calc 2 ^ 52 * (den * 2 ^ k) = 2 ^ (52 + k) * den := by ring
      _ ≤ num := hself
  have hhigh : num < 2 ^ 53 * (den * 2 ^ k) := by
    have hself := Nat.lt_log2_self (n := num / den)
    rw [hk, Nat.div_lt_iff_lt_mul hden] at hself
    calc num < 2 ^ (52 + k + 1) * den := hself
      _ = 2 ^ 53 * (den * 2 ^ k) := by ring
  have hvalue : (num / den * 2 ^ e : Rat) = num / (den * 2 ^ k : Nat) * 2 ^ (e + k) := by
    rw [zpow_add₀ (by norm_num), zpow_natCast]
    push_cast
    field_simp
  have hd : (0 : Rat) < (den * 2 ^ k : Nat) := by exact_mod_cast hden'
  have hexponent : -1074 ≤ e + k := by
    rw [hvalue] at hleast
    refine exponent_of_least ?_ hleast
    rw [div_lt_iff₀ hd]
    exact_mod_cast hhigh
  have hshift := shiftToTargetExponent_extended num (e := e) hden hdigits (by omega)
  rw [hk, show 52 + k - 52 = k by omega] at hshift
  obtain ⟨m, e', hm, he, hmlow, hmhigh, helow, -, hsame⟩ :=
    shiftToTargetExponent_rounded (e := e + k) (Decimal.le_roundHalfEven hden' hlow)
      (Decimal.roundHalfEven_le hden' hhigh.le) hexponent
  refine ⟨m, e', by omega, ?_, hmlow, hmhigh, by omega, ?_⟩
  · rw [← roundedMantissa_extended num hden'] at hm he
    exact roundWithAccuracy_eq_finite s hshift hm he _
  · rw [hsame, hvalue, toDouble_of_quotient hden' hlow hhigh]

/-- Rounding a quotient with enough digits. -/
theorem roundWithAccuracy_extended {num den : Nat} {e : Int} (s : Sign) (hden : 0 < den)
    (hdigits : 2 ^ 52 ≤ num / den) (hrange : Normal (num / den * 2 ^ e)) :
    ∃ m e' hm, roundWithAccuracy .binary64 s (num / den) e (extended num den).accuracy =
        .finite s m e' hm ∧ Canonical m e' ∧
      (m : Rat) * 2 ^ e' = toDouble (num / den * 2 ^ e) := by
  have hnonneg : (0 : Rat) ≤ num / den * 2 ^ e := by positivity
  obtain ⟨hleast, hgreatest⟩ := hrange
  rw [abs_of_nonneg hnonneg] at hleast hgreatest
  obtain ⟨m, e', hm, hround, hlow, hhigh, hexponent, hvalue⟩ :=
    roundWithAccuracy_full s hden hdigits hleast
  refine ⟨m, e', hm, hround, ⟨hhigh, hexponent, ?_, .inl hlow⟩, hvalue⟩
  have hsize : (2 : Rat) ^ (52 + e') < 2 ^ (1024 : Int) := by
    calc (2 : Rat) ^ (52 + e') = 2 ^ 52 * 2 ^ e' := by
          rw [zpow_add₀ (by norm_num)]
          norm_num
      _ ≤ m * 2 ^ e' := mul_le_mul_of_nonneg_right (by exact_mod_cast hlow) (by positivity)
      _ = toDouble (num / den * 2 ^ e) := hvalue
      _ ≤ 2 * (num / den * 2 ^ e) := toDouble_le_two_mul hnonneg
      _ < 2 * 2 ^ (1023 : Int) := mul_lt_mul_of_pos_left hgreatest (by norm_num)
      _ = 2 ^ (1024 : Int) := (zpow_one_add₀ (by norm_num) 1023).symm
  have := (zpow_lt_zpow_iff_right₀ (by norm_num : (1 : Rat) < 2)).mp hsize
  omega

/-! ## Signs -/

/-- One with a sign. -/
def unit : Sign → Rat
  | .negative => -1
  | .positive => 1

theorem apply_eq (s : Sign) (m : Nat) : ((s.apply m : Int) : Rat) = unit s * m := by
  cases s <;> simp [Sign.apply, unit]

theorem unit_mul (s t : Sign) : unit (s * t) = unit s * unit t := by
  cases s <;> cases t
  · change (1 : Rat) = -1 * -1
    norm_num
  · exact (mul_one (-1)).symm
  · exact (one_mul (-1)).symm
  · exact (one_mul 1).symm

theorem unit_div (s t : Sign) : unit (s / t) = unit s * unit t :=
  unit_mul s t

theorem abs_unit (s : Sign) : |unit s| = 1 := by
  cases s <;> simp [unit]

theorem unit_ne_zero (s : Sign) : unit s ≠ 0 := by
  cases s <;> simp [unit]

theorem toDouble_unit_mul (s : Sign) (r : Rat) : toDouble (unit s * r) = unit s * toDouble r := by
  cases s
  · have hunit : unit .negative = -1 := rfl
    rw [hunit, neg_one_mul, neg_one_mul, toDouble_neg]
  · have hunit : unit .positive = 1 := rfl
    rw [hunit, one_mul, one_mul]

theorem Normal.of_unit_mul {s : Sign} {r : Rat} (h : Normal (unit s * r)) : Normal r := by
  obtain ⟨hleast, hgreatest⟩ := h
  rw [abs_mul, abs_unit, one_mul] at hleast hgreatest
  exact ⟨hleast, hgreatest⟩

/-! ## Products and quotients -/

/-- The value of a result that is rounded from a quotient with enough digits. -/
theorem toRat?_ofModel_roundWithAccuracy {num den m : Nat} {e : Int} {a : Accuracy} (s : Sign)
    (hden : 0 < den) (hm : m = num / den) (ha : a = (extended num den).accuracy)
    (hdigits : 2 ^ 52 ≤ m) (hrange : Normal (unit s * (num / den * 2 ^ e))) :
    toRat? (Float.ofModel (Float.Model.pack (roundWithAccuracy .binary64 s m e a))) =
      some (toDouble (unit s * (num / den * 2 ^ e))) := by
  subst hm ha
  obtain ⟨m', e', hm', hround, hcanonical, hvalue⟩ :=
    roundWithAccuracy_extended s hden hdigits hrange.of_unit_mul
  rw [hround, toRat?_ofModel_pack (u := .finite s m' e' hm') hcanonical, unpackedValue_finite,
    apply_eq, mul_assoc, hvalue, toDouble_unit_mul]

theorem two_pow_52_le_mul_of_least {m₁ m₂ : Nat} {e₁ e₂ : Int} (h₁ : Canonical m₁ e₁)
    (h₂ : Canonical m₂ e₂) (hm₁ : 0 < m₁) (hm₂ : 0 < m₂)
    (hleast : (2 : Rat) ^ (-1022 : Int) ≤ m₁ * m₂ * 2 ^ (e₁ + e₂)) : 2 ^ 52 ≤ m₁ * m₂ := by
  rcases h₁.full with hfull | rfl
  · exact hfull.trans (Nat.le_mul_of_pos_right m₁ hm₂)
  rcases h₂.full with hfull | rfl
  · exact hfull.trans (Nat.le_mul_of_pos_left m₂ hm₁)
  -- Two numbers below the normal range have a product far below it.
  have hm₁ : (m₁ : Rat) < 2 ^ 53 := by exact_mod_cast h₁.lt
  have hm₂ : (m₂ : Rat) < 2 ^ 53 := by exact_mod_cast h₂.lt
  have hless : (m₁ * m₂ * 2 ^ (-1074 + -1074 : Int) : Rat) <
      2 ^ 53 * 2 ^ 53 * 2 ^ (-1074 + -1074 : Int) := by
    gcongr
  have hsmall : (2 ^ 53 * 2 ^ 53 * 2 ^ (-1074 + -1074 : Int) : Rat) = 2 ^ (-2042 : Int) := by
    rw [← zpow_natCast, ← zpow_add₀ (by norm_num), ← zpow_add₀ (by norm_num)]
    norm_num
  have hpower : (2 : Rat) ^ (-1022 : Int) < 2 ^ (-2042 : Int) := by
    rw [← hsmall]
    exact hleast.trans_lt hless
  have := (zpow_lt_zpow_iff_right₀ (by norm_num : (1 : Rat) < 2)).mp hpower
  omega

/-- A product of doubles is that of their values, rounded. -/
theorem toRat?_mul {x y : Float} {a b : Rat} (hx : toRat? x = some a) (hy : toRat? y = some b)
    (hrange : a * b = 0 ∨ Normal (a * b)) : toRat? (x * y) = some (toDouble (a * b)) := by
  have hmul : x * y = Float.ofModel (Float.Model.pack
      (UnpackedFloat.mul .binary64 x.toModel.unpack y.toModel.unpack)) := rfl
  rcases exists_unpack_of_toRat? hx with ⟨s₁, hu₁, rfl⟩ | ⟨s₁, m₁, e₁, hm₁, hu₁, hc₁, rfl⟩
  · rw [hmul, hu₁, zero_mul, toDouble_zero]
    rcases exists_unpack_of_toRat? hy with ⟨s₂, hu₂, rfl⟩ | ⟨s₂, m₂, e₂, hm₂, hu₂, hc₂, rfl⟩
    · rw [hu₂]
      exact toRat?_ofModel_pack (u := .zero (s₁ * s₂)) trivial
    · rw [hu₂]
      exact toRat?_ofModel_pack (u := .zero (s₁ * s₂)) trivial
  · rcases exists_unpack_of_toRat? hy with ⟨s₂, hu₂, rfl⟩ | ⟨s₂, m₂, e₂, hm₂, hu₂, hc₂, rfl⟩
    · rw [hmul, hu₁, hu₂, mul_zero, toDouble_zero]
      exact toRat?_ofModel_pack (u := .zero (s₁ * s₂)) trivial
    · have hproduct : (s₁.apply m₁ : Rat) * 2 ^ e₁ * (s₂.apply m₂ * 2 ^ e₂) =
          unit (s₁ * s₂) * ((m₁ * m₂ : Nat) / (1 : Nat) * 2 ^ (e₁ + e₂)) := by
        rw [apply_eq, apply_eq, unit_mul, zpow_add₀ (by norm_num)]
        push_cast
        ring
      have hnormal : Normal (unit (s₁ * s₂) * ((m₁ * m₂ : Nat) / (1 : Nat) * 2 ^ (e₁ + e₂))) := by
        rcases hrange with hzero | hnormal
        · rw [hproduct] at hzero
          exact absurd hzero (mul_ne_zero (unit_ne_zero _) (by positivity))
        · rwa [hproduct] at hnormal
      have hdigits : 2 ^ 52 ≤ m₁ * m₂ := by
        refine two_pow_52_le_mul_of_least hc₁ hc₂ hm₁ hm₂ ?_
        have hleast := hnormal.of_unit_mul.least_le
        rw [abs_of_nonneg (by positivity)] at hleast
        rwa [Nat.cast_mul, Nat.cast_one, div_one] at hleast
      rw [hmul, hu₁, hu₂, hproduct]
      exact toRat?_ofModel_roundWithAccuracy (s₁ * s₂) Nat.one_pos (Nat.div_one _).symm
        (accuracy_extended_one _).symm hdigits hnormal

/-- Enough digits are asked of a quotient to round it: at least fifty-three, unless it lies below
the normal range, where the least exponent is asked for. -/
theorem divCore_eq {m₁ m₂ : Nat} {e₁ : Int} (e₂ : Int) (h₁ : Canonical m₁ e₁)
    (hm₁ : 0 < m₁) (hm₂ : 0 < m₂) :
    ∃ num e, divCore .binary64 m₁ e₁ m₂ e₂ = (num / m₂, e, (extended num m₂).accuracy) ∧
      (num / m₂ * 2 ^ e : Rat) = m₁ / m₂ * 2 ^ (e₁ - e₂) ∧
      ((2 : Rat) ^ (-1022 : Int) ≤ num / m₂ * 2 ^ e → 2 ^ 52 ≤ num / m₂) ∧
      ((num / m₂ * 2 ^ e : Rat) < 2 ^ (-1022 : Int) → e ≤ -1074) := by
  have hlog₁ : m₁.log2 < 53 := (Nat.log2_lt (by omega)).mpr h₁.lt
  have hm₂' : (0 : Rat) < m₂ := by exact_mod_cast hm₂
  have hsplit : (2 : Rat) ^ (-1022 : Int) = 2 ^ 52 * 2 ^ (-1074 : Int) := by
    rw [← zpow_natCast, ← zpow_add₀ (by norm_num)]
    norm_num
  obtain ⟨t, ht⟩ : ∃ t, t = min (e₁ - e₂) (Format.binary64.targetExponent
      (totalExponent m₁ e₁ - totalExponent m₂ e₂)) := ⟨_, rfl⟩
  obtain ⟨k, hk⟩ : ∃ k : Nat, e₁ - e₂ = t + k := by
    obtain ⟨k, hk⟩ := Int.eq_ofNat_of_zero_le (show 0 ≤ e₁ - e₂ - t by omega)
    exact ⟨k, by omega⟩
  have hhigh : -1074 < t → 2 ^ 52 * m₂ ≤ m₁ * 2 ^ k := by
    intro hlow
    have htarget : Format.binary64.targetExponent (totalExponent m₁ e₁ - totalExponent m₂ e₂) =
        max (((m₁.log2 : Int) + 1 + e₁) - (m₂.log2 + 1 + e₂) - 53) (-1074) := rfl
    have hshift : m₁.log2 + k = 52 + (m₂.log2 + 1) := by omega
    have hupper : m₂ < 2 ^ (m₂.log2 + 1) := Nat.lt_log2_self
    have hlower : 2 ^ m₁.log2 ≤ m₁ := Nat.log2_self_le (by omega)
    calc 2 ^ 52 * m₂ ≤ 2 ^ 52 * 2 ^ (m₂.log2 + 1) := Nat.mul_le_mul_left _ hupper.le
      _ = 2 ^ m₁.log2 * 2 ^ k := by rw [← Nat.pow_add, ← Nat.pow_add, hshift]
      _ ≤ m₁ * 2 ^ k := Nat.mul_le_mul_right _ hlower
  refine ⟨m₁ * 2 ^ k, t, ?_, ?_, fun hleast ↦ ?_, fun hsmall ↦ ?_⟩
  · rw [divCore, ← ht, accuracy_extended _ hm₂]
    simp only [show (e₁ - e₂ - t).toNat = k by omega, Nat.shiftLeft_eq]
  · rw [hk, zpow_add₀ (by norm_num), zpow_natCast]
    push_cast
    ring
  · rw [Nat.le_div_iff_mul_le hm₂]
    rcases le_or_gt t (-1074) with hlow | hlow
    · -- At the least exponent the size itself shows how many digits there are.
      have hpower : (2 : Rat) ^ t ≤ 2 ^ (-1074 : Int) :=
        zpow_le_zpow_right₀ (by norm_num) hlow
      have hbound : (2 ^ 52 * 2 ^ (-1074 : Int) : Rat) ≤
          (m₁ * 2 ^ k : Nat) / m₂ * 2 ^ (-1074 : Int) := by
        rw [← hsplit]
        exact hleast.trans (mul_le_mul_of_nonneg_left hpower (by positivity))
      have hquotient := le_of_mul_le_mul_right hbound (by positivity)
      rw [le_div_iff₀ hm₂'] at hquotient
      exact_mod_cast hquotient
    · exact hhigh hlow
  · by_contra hlow
    have hdigits : (2 ^ 52 : Rat) ≤ (m₁ * 2 ^ k : Nat) / m₂ := by
      rw [le_div_iff₀ hm₂']
      exact_mod_cast hhigh (not_le.mp hlow)
    refine absurd hsmall (not_lt.mpr ?_)
    rw [hsplit]
    exact mul_le_mul hdigits (zpow_le_zpow_right₀ (by norm_num) (not_le.mp hlow).le)
      (by positivity) (by positivity)

/-- A quotient of doubles is that of their values, rounded. -/
theorem toRat?_div {x y : Float} {a b : Rat} (hx : toRat? x = some a) (hy : toRat? y = some b)
    (hb : b ≠ 0) (hrange : a / b = 0 ∨ Normal (a / b)) :
    toRat? (x / y) = some (toDouble (a / b)) := by
  have hdiv : x / y = Float.ofModel (Float.Model.pack
      (UnpackedFloat.div .binary64 x.toModel.unpack y.toModel.unpack)) := rfl
  rcases exists_unpack_of_toRat? hy with ⟨s₂, hu₂, rfl⟩ | ⟨s₂, m₂, e₂, hm₂, hu₂, hc₂, rfl⟩
  · exact absurd rfl hb
  rcases exists_unpack_of_toRat? hx with ⟨s₁, hu₁, rfl⟩ | ⟨s₁, m₁, e₁, hm₁, hu₁, hc₁, rfl⟩
  · rw [hdiv, hu₁, hu₂, zero_div, toDouble_zero]
    exact toRat?_ofModel_pack (u := .zero (s₁ / s₂)) trivial
  · have hquotient : (s₁.apply m₁ : Rat) * 2 ^ e₁ / (s₂.apply m₂ * 2 ^ e₂) =
        unit (s₁ / s₂) * (m₁ / m₂ * 2 ^ (e₁ - e₂)) := by
      rw [apply_eq, apply_eq, unit_div, zpow_sub₀ (by norm_num)]
      cases s₁ <;> cases s₂ <;> simp [unit] <;> field_simp
    have hnormal : Normal (unit (s₁ / s₂) * (m₁ / m₂ * 2 ^ (e₁ - e₂))) := by
      rcases hrange with hzero | hnormal
      · rw [hquotient] at hzero
        exact absurd hzero (mul_ne_zero (unit_ne_zero _) (by positivity))
      · rwa [hquotient] at hnormal
    have hleast := hnormal.of_unit_mul.least_le
    rw [abs_of_nonneg (by positivity)] at hleast
    obtain ⟨num, e, hcore, hvalue, hdigits, -⟩ := divCore_eq e₂ hc₁ hm₁ hm₂
    rw [← hvalue] at hnormal hleast
    have hround : UnpackedFloat.div .binary64 (.finite s₁ m₁ e₁ hm₁) (.finite s₂ m₂ e₂ hm₂) =
        roundWithAccuracy .binary64 (s₁ / s₂) (num / m₂) e (extended num m₂).accuracy := by
      delta UnpackedFloat.div
      dsimp only
      rw [hcore]
    rw [hdiv, hu₁, hu₂, hround, hquotient, ← hvalue]
    exact toRat?_ofModel_roundWithAccuracy (s₁ / s₂) hm₂ rfl rfl (hdigits hleast) hnormal

/-! ## The double nearest to a quotient -/

/-- The lengths of numerator and denominator leave two orders, which one comparison tells apart. -/
theorem binaryOrder_eq (num : Nat) {den : Nat} (hden : 0 < den) :
    binaryOrder num den =
      if (2 : Rat) ^ ((num.log2 : Int) - den.log2) ≤ num / den then (num.log2 : Int) - den.log2
      else (num.log2 : Int) - den.log2 - 1 := by
  have hd : (0 : Rat) < den := by exact_mod_cast hden
  rw [binaryOrder]
  generalize (num.log2 : Int) - den.log2 = guess
  cases guess with
  | ofNat k =>
    have htest : (2 : Rat) ^ (Int.ofNat k) ≤ num / den ↔ den * Nat.pow 2 k ≤ num := by
      rw [le_div_iff₀ hd, Int.ofNat_eq_natCast, zpow_natCast, mul_comm]
      exact_mod_cast Iff.rfl
    simp only [htest]
  | negSucc k =>
    have htest : (2 : Rat) ^ (Int.negSucc k) ≤ num / den ↔ den ≤ num * Nat.pow 2 (k + 1) := by
      rw [zpow_negSucc, inv_le_iff_one_le_mul₀ (by positivity), div_mul_eq_mul_div,
        one_le_div hd]
      exact_mod_cast Iff.rfl
    simp only [htest]

/-- The order found from the lengths of numerator and denominator is that of the quotient. -/
theorem binaryOrder_bounds {num den : Nat} (hnum : 0 < num) (hden : 0 < den) :
    (2 : Rat) ^ binaryOrder num den ≤ num / den ∧
      (num / den : Rat) < 2 ^ (binaryOrder num den + 1) := by
  have hd : (0 : Rat) < den := by exact_mod_cast hden
  have hnumlow : (2 : Rat) ^ num.log2 ≤ num := by exact_mod_cast Nat.log2_self_le hnum.ne'
  have hnumhigh : (num : Rat) < 2 ^ (num.log2 + 1) := by exact_mod_cast Nat.lt_log2_self
  have hdenlow : (2 : Rat) ^ den.log2 ≤ den := by exact_mod_cast Nat.log2_self_le hden.ne'
  have hdenhigh : (den : Rat) < 2 ^ (den.log2 + 1) := by exact_mod_cast Nat.lt_log2_self
  rw [binaryOrder_eq num hden]
  split
  · next hle =>
    refine ⟨hle, ?_⟩
    rw [div_lt_iff₀ hd]
    calc (num : Rat) < 2 ^ (num.log2 + 1) := hnumhigh
      _ = 2 ^ ((num.log2 : Int) - den.log2 + 1) * 2 ^ den.log2 := by
          rw [← zpow_natCast, ← zpow_natCast, ← zpow_add₀ (by norm_num)]
          congr 1
          push_cast
          ring
      _ ≤ 2 ^ ((num.log2 : Int) - den.log2 + 1) * den :=
          mul_le_mul_of_nonneg_left hdenlow (by positivity)
  · next hlt =>
    refine ⟨?_, by rw [sub_add_cancel]; exact not_le.mp hlt⟩
    rw [le_div_iff₀ hd]
    calc (2 : Rat) ^ ((num.log2 : Int) - den.log2 - 1) * den
        ≤ 2 ^ ((num.log2 : Int) - den.log2 - 1) * 2 ^ (den.log2 + 1) :=
          mul_le_mul_of_nonneg_left hdenhigh.le (by positivity)
      _ = 2 ^ num.log2 := by
          rw [← zpow_natCast, ← zpow_natCast, ← zpow_add₀ (by norm_num)]
          congr 1
          push_cast
          ring
      _ ≤ num := hnumlow

/-- The significand of the nearest double, for the exponent of its last place. -/
def nearestUnits (num den : Nat) : Int → Nat
  | .ofNat k => Decimal.roundHalfEven num (den * Nat.pow 2 k)
  | .negSucc k => Decimal.roundHalfEven (num * Nat.pow 2 (k + 1)) den

theorem nearestUnits_bounds {num den : Nat} {e : Int} (hden : 0 < den)
    (hlow : (2 ^ 52 * 2 ^ e : Rat) ≤ num / den) (hhigh : (num / den : Rat) < 2 ^ 53 * 2 ^ e) :
    2 ^ 52 ≤ nearestUnits num den e ∧ nearestUnits num den e ≤ 2 ^ 53 ∧
      (nearestUnits num den e * 2 ^ e : Rat) = toDouble (num / den) := by
  have hd : (0 : Rat) < den := by exact_mod_cast hden
  rw [le_div_iff₀ hd] at hlow
  rw [div_lt_iff₀ hd] at hhigh
  cases e with
  | ofNat k =>
    rw [Int.ofNat_eq_natCast, zpow_natCast, mul_assoc, mul_comm ((2 : Rat) ^ k)] at hlow hhigh
    have hlow' : 2 ^ 52 * (den * 2 ^ k) ≤ num := by exact_mod_cast hlow
    have hhigh' : num < 2 ^ 53 * (den * 2 ^ k) := by exact_mod_cast hhigh
    have hden' : 0 < den * 2 ^ k := by positivity
    refine ⟨Decimal.le_roundHalfEven hden' hlow', Decimal.roundHalfEven_le hden' hhigh'.le, ?_⟩
    have hsplit : (num / den : Rat) = num / (den * 2 ^ k : Nat) * 2 ^ (k : Int) := by
      rw [zpow_natCast]
      push_cast
      field_simp
    rw [hsplit, toDouble_of_quotient hden' hlow' hhigh']
    rfl
  | negSucc k =>
    rw [zpow_negSucc, mul_right_comm, ← div_eq_mul_inv, div_le_iff₀ (by positivity)] at hlow
    rw [zpow_negSucc, mul_right_comm, ← div_eq_mul_inv, lt_div_iff₀ (by positivity)] at hhigh
    have hlow' : 2 ^ 52 * den ≤ num * 2 ^ (k + 1) := by exact_mod_cast hlow
    have hhigh' : num * 2 ^ (k + 1) < 2 ^ 53 * den := by exact_mod_cast hhigh
    refine ⟨Decimal.le_roundHalfEven hden hlow', Decimal.roundHalfEven_le hden hhigh'.le, ?_⟩
    have hsplit : (num / den : Rat) = (num * 2 ^ (k + 1) : Nat) / den * 2 ^ Int.negSucc k := by
      rw [zpow_negSucc]
      push_cast
      field_simp
    rw [hsplit, toDouble_of_quotient hden hlow' hhigh']
    rfl

/-- Exponent field and significand, added up, are the bits of their product. -/
theorem value_of_bits {m : Nat} {e : Int} (hlow : 2 ^ 52 ≤ m) (hhigh : m ≤ 2 ^ 53)
    (hleast : -1074 ≤ e) :
    (significand ((e + 1074).toNat * leadingBit + m) *
      2 ^ binaryExponent ((e + 1074).toNat * leadingBit + m) : Rat) = m * 2 ^ e := by
  rw [leadingBit]
  rcases Nat.lt_or_eq_of_le hhigh with hless | rfl
  · have hbits : (e + 1074).toNat * 4503599627370496 + m =
        (e + 1075).toNat * 4503599627370496 + (m - 4503599627370496) := by omega
    have hrest : m - 4503599627370496 < 4503599627370496 := by omega
    rw [hbits, significand_of_normal (by omega) hrest, binaryExponent_of_normal (by omega) hrest,
      show m - 4503599627370496 + 4503599627370496 = m by omega, Int.toNat_of_nonneg (by omega)]
    congr 2
    ring
  · have hbits : (e + 1074).toNat * 4503599627370496 + 2 ^ 53 =
        (e + 1076).toNat * 4503599627370496 + 0 := by omega
    rw [hbits, significand_of_normal (by omega) (by norm_num),
      binaryExponent_of_normal (by omega) (by norm_num), Int.toNat_of_nonneg (by omega),
      show e + 1076 - 1075 = e + 1 by ring, zpow_add₀ (by norm_num)]
    norm_num
    ring

theorem nearestBits_eq {num den : Nat} (hnum : 0 < num) (hden : 0 < den)
    (hrange : Normal (num / den)) :
    nearestBits num den < infinityBits ∧
      (significand (nearestBits num den) * 2 ^ binaryExponent (nearestBits num den) : Rat) =
        toDouble (num / den) := by
  obtain ⟨hlow, hhigh⟩ := binaryOrder_bounds hnum hden
  obtain ⟨e, he⟩ : ∃ e, binaryOrder num den = 52 + e := ⟨binaryOrder num den - 52, by ring⟩
  rw [he, zpow_add₀ (by norm_num)] at hlow
  rw [he, show 52 + e + 1 = 53 + e by ring, zpow_add₀ (by norm_num)] at hhigh
  have hquotient : (num / den : Rat) = num / den * (2 ^ e)⁻¹ * 2 ^ e := by field_simp
  obtain ⟨hleast, hgreatest⟩ : -1074 ≤ e ∧ e ≤ 970 := by
    rw [hquotient] at hrange
    refine exponent_of_normal ?_ ?_ hrange
    · rw [← div_eq_mul_inv, le_div_iff₀ (by positivity)]
      exact_mod_cast hlow
    · rw [← div_eq_mul_inv, div_lt_iff₀ (by positivity)]
      exact_mod_cast hhigh
  obtain ⟨hunits, hunits', hvalue⟩ := nearestUnits_bounds (e := e) hden (by exact_mod_cast hlow)
    (by exact_mod_cast hhigh)
  have hinfinity : infinityBits = 2047 * leadingBit := rfl
  have hbits : nearestBits num den = (e + 1074).toNat * leadingBit + nearestUnits num den e := by
    have hexponent : max (binaryOrder num den - 52) (-1074) = e := by omega
    rw [nearestBits, if_neg hnum.ne']
    simp only [hexponent]
    change min ((e + 1074).toNat * leadingBit + nearestUnits num den e) infinityBits = _
    rw [hinfinity, leadingBit]
    omega
  refine ⟨?_, ?_⟩
  · rw [hbits, hinfinity, leadingBit]
    omega
  · rw [hbits, value_of_bits hunits hunits' hleast, hvalue]

/-- The double nearest to a quotient has the rounded value. -/
theorem toRat?_nearest {negative : Bool} {num den : Nat} (hden : 0 < den)
    (hrange : num = 0 ∨ Normal (num / den)) :
    toRat? (nearest negative num den) =
      some ((if negative then -1 else 1) * toDouble (num / den)) := by
  rcases Nat.eq_zero_or_pos num with rfl | hnum
  · have hbits : nearestBits 0 den = 0 := by rw [nearestBits, if_pos rfl]
    rw [nearest, hbits, toRat?_ofMagnitudeBits (by decide), Nat.cast_zero, zero_div, toDouble_zero]
    have hsignificand : significand 0 = 0 := rfl
    rw [hsignificand, Nat.cast_zero, zero_mul]
  · obtain ⟨hlt, hvalue⟩ := nearestBits_eq hnum hden (hrange.resolve_left hnum.ne')
    rw [nearest, toRat?_ofMagnitudeBits hlt, hvalue]

/-- The double nearest to a rational number has the rounded value. -/
theorem toRat?_ofRat {r : Rat} (hrange : r = 0 ∨ Normal r) :
    toRat? (ofRat r) = some (toDouble r) := by
  have habs : |r| = r.num.natAbs / r.den := by
    rw [← natAbs_num_div_den (abs_nonneg r)]
    simp
  have hrange' : r.num.natAbs = 0 ∨ Normal (r.num.natAbs / r.den) := by
    rcases hrange with rfl | ⟨hleast, hgreatest⟩
    · exact .inl rfl
    · right
      rw [← habs]
      exact ⟨by rwa [abs_abs], by rwa [abs_abs]⟩
  rw [ofRat, toRat?_nearest r.den_pos hrange', ← habs]
  rcases lt_or_ge r 0 with hneg | hnonneg
  · rw [if_pos (decide_eq_true (Rat.num_neg.mpr hneg)), abs_of_neg hneg, toDouble_neg]
    simp
  · rw [if_neg (by simpa using hnonneg), abs_of_nonneg hnonneg, one_mul]

end Binary64
end Mensura
