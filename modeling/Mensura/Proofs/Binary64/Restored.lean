import Mensura.Proofs.Binary64.FirstDigit
import Mensura.Proofs.Binary64.Integer

/-!
# Shifted there and back

A double is held as a number with one digit before the point and a power of ten.  Multiplied out
again it is not quite what it was: each step of the two shifts rounds, and the steps that end below
the normal range lose up to half of the least subnormal double.

* `exists_restored`: what comes back is close, or it was at the very end of the range and is
  infinite now.
* `close_of_near`: what is that close counts as equal, also where a double has few digits left.
* `eq_of_toRat?`: a double other than zero is told by its value.
-/

set_option autoImplicit false

open Float.Model Float.Model.UnpackedFloat

namespace Mensura
namespace Binary64

variable {x y : Float} {a b c r s v : Rat} {k n : Nat}

/-! ## Doubles told by their values -/

theorem toBits_toNat_eq (x : Float) :
    x.toBits.toNat = magnitudeBits x + if isNegative x then signBit else 0 := by
  have hlt : x.toBits.toNat < 2 ^ 64 := x.toBits.toNat_lt
  rw [magnitudeBits, isNegative, signBit]
  by_cases h : 0x8000000000000000 ≤ x.toBits.toNat
  · rw [decide_eq_true h, if_pos rfl]
    omega
  · rw [decide_eq_false h, if_neg Bool.false_ne_true]
    omega

theorem eq_of_toBits (h : x.toBits = y.toBits) : x = y := by
  obtain ⟨⟨bits, hbits⟩⟩ := x
  obtain ⟨⟨bits', hbits'⟩⟩ := y
  have h : bits = bits' := h
  subst h
  rfl

/-- A size is written in one way with fifty-three bits. -/
theorem magnitudeBits_inj (hx : toRat? x = some a) (hy : toRat? y = some b) (h : |a| = |b|) :
    magnitudeBits x = magnitudeBits y := by
  have hlt := magnitudeBits_lt hx
  have hlt' := magnitudeBits_lt hy
  have hcompare := compare_canonical (canonical_of_bits hlt) (canonical_of_bits hlt')
  rw [abs_eq_of_toRat? hx, abs_eq_of_toRat? hy] at h
  rw [compare_eq_iff_eq.mpr h, Ordering.then_eq_eq, compare_eq_iff_eq,
    compare_eq_iff_eq] at hcompare
  obtain ⟨hexponent, hsignificand⟩ := hcompare
  rw [infinityBits] at hlt hlt'
  simp only [binaryExponent, significand, leadingBit] at hexponent hsignificand
  generalize magnitudeBits x = bits at *
  generalize magnitudeBits y = bits' at *
  by_cases hsubnormal : bits < 4503599627370496 <;>
    by_cases hsubnormal' : bits' < 4503599627370496 <;>
    simp only [hsubnormal, hsubnormal', if_true, if_false] at hexponent hsignificand <;> omega

/-- **Doubles of one value are the same**, except for the zeros. -/
theorem eq_of_toRat? (hx : toRat? x = some a) (hy : toRat? y = some a) (ha : a ≠ 0) : x = y := by
  refine eq_of_toBits (UInt64.toNat_inj.mp ?_)
  rw [toBits_toNat_eq, toBits_toNat_eq, magnitudeBits_inj hx hy rfl, isNegative_eq hx ha,
    isNegative_eq hy ha]

/-! ## Below the normal range -/

theorem abs_nearestDouble_sub_le_of_nonneg (hr : 0 ≤ r) :
    |nearestDouble r - r| ≤ r * 2⁻¹ ^ 53 + 1 / 2 * 2 ^ (-1074 : Int) := by
  have hunit : (0 : Rat) < 2 ^ (-1074 : Int) := by positivity
  rcases lt_or_ge |r| (2 ^ (-1022 : Int)) with hless | hleast
  · obtain ⟨num, den, hden, hsize, -⟩ := exists_units_of_lt hless
    rw [abs_of_nonneg hr] at hsize
    have hquotient := hless
    rw [abs_of_nonneg hr, hsize] at hquotient
    have herror := Decimal.abs_roundHalfEven_sub_le num hden
    rw [hsize, nearestDouble_of_lt hden hquotient, ← sub_mul, abs_mul, abs_of_pos hunit]
    have hnonneg : (0 : Rat) ≤ num / den * 2 ^ (-1074 : Int) * 2⁻¹ ^ 53 := by positivity
    exact (mul_le_mul_of_nonneg_right herror hunit.le).trans (le_add_of_nonneg_left hnonneg)
  · have herror := abs_toDouble_sub_le r
    rw [abs_of_nonneg hr] at herror
    rw [nearestDouble_of_le hleast]
    linarith

/-- Rounding moves a number by half of its last place, or by half of the least subnormal double. -/
theorem abs_nearestDouble_sub_le (r : Rat) :
    |nearestDouble r - r| ≤ |r| * 2⁻¹ ^ 53 + 1 / 2 * 2 ^ (-1074 : Int) := by
  rcases le_total 0 r with hr | hr
  · rw [abs_of_nonneg hr]
    exact abs_nearestDouble_sub_le_of_nonneg hr
  · have herror := abs_nearestDouble_sub_le_of_nonneg (neg_nonneg.mpr hr)
    rwa [nearestDouble_neg, neg_sub_neg, abs_sub_comm, ← abs_of_nonpos hr] at herror

/-! ## Steps to the right -/

/-- A number that `n` roundings have moved, the last of them perhaps below the normal range.  What
the earlier ones lost there has been divided by ten at least since. -/
def Near (n : Nat) (c r : Rat) : Prop :=
  |c - r| ≤ |r| * (n * 2⁻¹ ^ 52) + 3 / 5 * 2 ^ (-1074 : Int)

theorem Near.refl (r : Rat) : Near 0 r r := by
  rw [Near, sub_self, abs_zero]
  positivity

theorem Near.mono {m : Nat} (h : Near n c r) (hnm : n ≤ m) : Near m c r := by
  have hcount : (n : Rat) ≤ m := by exact_mod_cast hnm
  have hmore : |r| * (n * 2⁻¹ ^ 52) ≤ |r| * (m * 2⁻¹ ^ 52) := by gcongr
  exact h.trans (by linarith)

/-- One more step to the right. -/
theorem Near.nearestDouble (h : Near n c r) (hn : n ≤ 100) (hk : 1 ≤ k) :
    Near (n + 1) (nearestDouble (c / 10 ^ k)) (r / 10 ^ k) := by
  have hten : (10 : Rat) ≤ 10 ^ k := by
    simpa using pow_le_pow_right₀ (by norm_num : (1 : Rat) ≤ 10) hk
  have hpower : (0 : Rat) < 10 ^ k := by positivity
  have hunit : (0 : Rat) < 2 ^ (-1074 : Int) := by positivity
  have hbefore : |c / 10 ^ k - r / 10 ^ k| ≤
      |r / 10 ^ k| * (n * 2⁻¹ ^ 52) + 3 / 50 * 2 ^ (-1074 : Int) := by
    rw [← sub_div, abs_div, abs_div, abs_of_pos hpower, div_le_iff₀ hpower, add_mul,
      mul_right_comm, div_mul_cancel₀ _ hpower.ne']
    refine h.trans (add_le_add_right ?_ _)
    rw [mul_right_comm]
    exact mul_le_mul_of_nonneg_right (by linarith) hunit.le
  have hround := abs_nearestDouble_sub_le (c / 10 ^ k)
  have hsize : |c / 10 ^ k| ≤ |c / 10 ^ k - r / 10 ^ k| + |r / 10 ^ k| := by
    simpa using abs_add_le (c / 10 ^ k - r / 10 ^ k) (r / 10 ^ k)
  have hfew : |r / 10 ^ k| * (n * 2⁻¹ ^ 52) ≤ |r / 10 ^ k| * 2⁻¹ ^ 40 := by
    refine mul_le_mul_of_nonneg_left ?_ (abs_nonneg _)
    have hcount : (n : Rat) ≤ 100 := by exact_mod_cast hn
    norm_num
    linarith
  have htriangle := abs_sub_le (Binary64.nearestDouble (c / 10 ^ k)) (c / 10 ^ k) (r / 10 ^ k)
  rw [Near, Nat.cast_add_one, add_one_mul, mul_add]
  have hnonneg := abs_nonneg (r / 10 ^ k)
  generalize |r / 10 ^ k| * (n * 2⁻¹ ^ 52) = lost at hbefore hfew ⊢
  generalize |r / 10 ^ k| = size at *
  generalize (2 : Rat) ^ (-1074 : Int) = unit at *
  norm_num at hround hfew ⊢
  linarith

theorem Near.div_tenPower (h : Near n c r) (hx : toRat? x = some c) (hn : n ≤ 100) (hk : 1 ≤ k)
    (hk' : k ≤ 22) : ∃ d, toRat? (x / tenPower k) = some d ∧ Near (n + 1) d (r / 10 ^ k) := by
  obtain ⟨d, hd, -⟩ := exists_toRat?_div_tenPower hx hk hk'
  refine ⟨d, hd, ?_⟩
  rw [eq_of_div_tenPower hx hk' hd]
  exact h.nearestDouble hn hk

theorem exists_near_scaleDown (steps : Nat) (hx : toRat? x = some r) (hsteps : steps ≤ 100) :
    ∃ d, toRat? (scaleDown steps x) = some d ∧ Near steps d (r / 10 ^ (22 * steps)) := by
  induction steps with
  | zero => exact ⟨r, hx, by simpa using Near.refl r⟩
  | succ steps ih =>
    obtain ⟨d, hd, hnear⟩ := ih (by omega)
    obtain ⟨d', hd', hnear'⟩ := hnear.div_tenPower (k := 22) hd (by omega) (by decide) le_rfl
    rw [div_div, ← pow_add, ← mul_add_one] at hnear'
    exact ⟨d', scaleDown_succ steps x ▸ hd', hnear'⟩

/-- A shift to the right, which may end below the normal range. -/
theorem exists_near_scale10_neg (hx : toRat? x = some r) (hr : r ≠ 0) (hk : 0 < k)
    (hfar : k ≤ 700) :
    ∃ d, toRat? (scale10 x (-k)) = some d ∧ Near (roundings k) d (r * 10 ^ (-k : Int)) := by
  obtain ⟨hcount, hplaces, hsteps⟩ := roundings_eq hk hfar
  obtain ⟨hrest, hrest'⟩ := restPlaces_bounds k
  obtain ⟨d, hd, hnear⟩ := exists_near_scaleDown (fullSteps k) hx (by omega)
  obtain ⟨d', hd', hnear'⟩ := hnear.div_tenPower hd (by omega) hrest hrest'
  rw [hcount, div_div, ← pow_add, ← hplaces, div_eq_mul_inv, ← zpow_natCast, ← zpow_neg] at hnear'
  exact ⟨d', by rwa [scale10_of_neg (beq_zero_eq_false hx hr) hk], hnear'⟩

/-! ## There and back -/

/-- `k` roundings move a number by `k` parts in `2 ^ 52` at most. -/
theorem Within.abs_sub_le_mul (h : Within k a b) (hk : k ≤ 400) :
    |a - b| ≤ b * (k * 2⁻¹ ^ 52) := by
  have hcount : (k : Rat) ≤ 400 := by exact_mod_cast hk
  have hbernoulli := one_add_mul_le_pow (by norm_num : (-2 : Rat) ≤ -2⁻¹ ^ 53) k
  rw [← sub_eq_add_neg] at hbernoulli
  have hlow := (mul_le_mul_of_nonneg_left hbernoulli h.pos'.le).trans h.le
  have hhigh := (mul_le_mul_of_nonneg_left hbernoulli h.pos.le).trans h.le'
  have hdouble : a ≤ 2 * b := by
    have hmost := (h.bounds hk).2
    norm_num at hmost
    linarith [h.pos']
  have hproduct : a * (k * 2⁻¹ ^ 53) ≤ 2 * b * (k * 2⁻¹ ^ 53) := by gcongr
  have hproduct' : 0 ≤ b * (k * 2⁻¹ ^ 53) := by
    have := h.pos'
    positivity
  rw [abs_le]
  constructor <;> norm_num at * <;> linarith

theorem Within.abs_sub_le_of_sign (h : Within k |c| |r|) (hsign : 0 < c * r) (hk : k ≤ 400) :
    |c - r| ≤ |r| * (k * 2⁻¹ ^ 52) := by
  have herror := h.abs_sub_le_mul hk
  rcases pos_and_pos_or_neg_and_neg_of_mul_pos hsign with ⟨hc, hr⟩ | ⟨hc, hr⟩
  · simpa only [abs_of_pos hc, abs_of_pos hr] using herror
  · simpa only [abs_of_neg hc, abs_of_neg hr, neg_sub_neg, abs_sub_comm r c] using herror

theorem Within.near (h : Within k |c| |r|) (hsign : 0 < c * r) (hk : k ≤ 400) : Near k c r :=
  (h.abs_sub_le_of_sign hsign hk).trans (le_add_of_nonneg_right (by positivity))

/-- A shift to the left of a number with one digit before the point.  Only its last step may leave
the range. -/
theorem exists_near_scale10_pos (hx : toRat? x = some r) (hr : 1 ≤ |r|) (hk : 0 < k)
    (hfar : k ≤ 700) (hlast : |r * 10 ^ k| ≤ 2 ^ (1025 : Int)) :
    ∃ d, toRat? (scale10 x k) = finite d ∧ Near (roundings k) d (r * 10 ^ k) := by
  have hne : r ≠ 0 := abs_pos.mp (zero_lt_one.trans_le hr)
  obtain ⟨hcount, hplaces, hsteps⟩ := roundings_eq hk hfar
  obtain ⟨hrest, hrest'⟩ := restPlaces_bounds k
  have hpower : r * 10 ^ k = r * 10 ^ (22 * fullSteps k) * 10 ^ restPlaces k := by
    rw [mul_assoc, ← pow_add, ← hplaces]
  rw [hpower] at hlast ⊢
  rw [scale10_of_pos (beq_zero_eq_false hx hne) hk, ← hcount]
  generalize fullSteps k = steps at *
  generalize restPlaces k = rest at *
  have hten : (0 : Rat) < 10 ^ rest := by positivity
  have hbefore : |r * 10 ^ (22 * steps)| ≤ 2 ^ (1022 : Int) := by
    have height : (2 : Rat) ^ (3 : Int) ≤ 10 ^ rest :=
      (by norm_num : (2 : Rat) ^ (3 : Int) ≤ 10 ^ 1).trans
        (pow_le_pow_right₀ (by norm_num) hrest)
    have hsplit : (2 : Rat) ^ (1025 : Int) = 2 ^ (1022 : Int) * 2 ^ (3 : Int) :=
      zpow_add₀ (by norm_num) 1022 3
    rw [abs_mul, abs_of_pos hten, hsplit] at hlast
    refine le_of_mul_le_mul_right (hlast.trans ?_) hten
    exact mul_le_mul_of_nonneg_left height (by positivity)
  obtain ⟨c, hc, hsign, hwithin⟩ := approx_scaleUp hx hne hsteps hbefore
  have hleast : (2 : Rat) ^ (-1022 : Int) ≤ |c * 10 ^ rest| := by
    have hone : 1 ≤ |r * 10 ^ (22 * steps)| := hr.trans (abs_le_abs_mul_ten_pow r _)
    have hhalf : 1 / 2 ≤ |c| := by
      have hlow := (hwithin.bounds (by omega)).1
      generalize |r * 10 ^ (22 * steps)| = size at hone hlow
      norm_num at hlow
      linarith
    calc (2 : Rat) ^ (-1022 : Int) ≤ 2 ^ (-1 : Int) :=
          zpow_le_zpow_right₀ (by norm_num) (by norm_num)
      _ = 1 / 2 := by norm_num
      _ ≤ |c| := hhalf
      _ ≤ |c * 10 ^ rest| := abs_le_abs_mul_ten_pow c rest
  refine ⟨nearestDouble (c * 10 ^ rest), toRat?_mul_eq hc (toRat?_tenPower hrest'), ?_⟩
  rw [nearestDouble_of_le hleast]
  refine Within.near ?_ ?_ (by omega)
  · have hstep := (hwithin.mul hten).toDouble
    rwa [← abs_of_pos hten, ← abs_mul, ← abs_mul, ← abs_toDouble] at hstep
  · refine toDouble_mul_pos ?_
    rw [mul_mul_mul_comm]
    exact mul_pos hsign (mul_pos hten hten)

/-- A shift of a number with one digit before the point, in either direction. -/
theorem exists_near_scale10 {e : Int} (hx : toRat? x = some r) (hr : 1 ≤ |r|)
    (he : e.natAbs ≤ 404) (hlast : |r * 10 ^ e| ≤ 2 ^ (1025 : Int)) :
    ∃ d, toRat? (scale10 x e) = finite d ∧ Near 20 d (r * 10 ^ e) := by
  have hne : r ≠ 0 := abs_pos.mp (zero_lt_one.trans_le hr)
  have hfew {k : Nat} (hk : k ≤ 404) : roundings k ≤ 20 := by
    rw [roundings, Int.natAbs_natCast]
    omega
  rcases lt_trichotomy e 0 with hneg | rfl | hpos
  · obtain ⟨k, rfl⟩ : ∃ k : Nat, e = -k := ⟨e.natAbs, by omega⟩
    obtain ⟨d, hd, hnear⟩ := exists_near_scale10_neg hx hne (by omega : 0 < k) (by omega)
    have hfinite : finite d = some d := finite_eq_some.mpr ⟨rfl, abs_lt_of_toRat? hd⟩
    exact ⟨d, by rw [hd, hfinite], hnear.mono (hfew (by omega))⟩
  · have hfinite : finite r = some r := finite_eq_some.mpr ⟨rfl, abs_lt_of_toRat? hx⟩
    refine ⟨r, by rw [scale10_zero_places, hx, hfinite], ?_⟩
    rw [zpow_zero, mul_one]
    exact (Near.refl r).mono (by decide)
  · obtain ⟨k, rfl⟩ := Int.eq_ofNat_of_zero_le hpos.le
    rw [zpow_natCast] at hlast ⊢
    obtain ⟨d, hd, hnear⟩ := exists_near_scale10_pos hx hr (by omega) (by omega) hlast
    exact ⟨d, hd, hnear.mono (hfew (by omega))⟩

/-- The decimal exponent of a double is not far from zero. -/
theorem natAbs_ilog10_le (hx : toRat? x = some v) (hv : v ≠ 0) : (ilog10 x).natAbs ≤ 403 := by
  obtain ⟨k, hlow, hhigh⟩ := exists_order hv
  obtain ⟨hfrom, hto⟩ := order_bounds hx hlow hhigh
  obtain ⟨hlow', hhigh'⟩ := ilog10_bounds hx hv
  have hless := (zpow_lt_zpow_iff_right₀ (by norm_num)).mp (hlow.trans_lt hhigh')
  have hless' := (zpow_lt_zpow_iff_right₀ (by norm_num)).mp (hlow'.trans_lt hhigh)
  omega

/-- The digits of a double, up to a few roundings. -/
theorem exists_digits (hx : toRat? x = some v) (hv : v ≠ 0) :
    ∃ s, toRat? (scale10 x (-ilog10 x)) = some s ∧ 1 ≤ |s| ∧ |s| ≤ 10 ∧
      |s * 10 ^ ilog10 x - v| ≤ |v| * (20 * 2⁻¹ ^ 52) := by
  obtain ⟨s, hs, -, hone, hten, -⟩ := exists_first_digit hx hv
  have hfar := natAbs_ilog10_le hx hv
  have hpower : (0 : Rat) < 10 ^ ilog10 x := by positivity
  have hback : v * 10 ^ (-ilog10 x) * 10 ^ ilog10 x = v := by
    rw [zpow_neg, inv_mul_cancel_right₀ hpower.ne']
  have hinner : Inner |v * 10 ^ (-ilog10 x)| := by
    obtain ⟨hlow, hhigh⟩ := ilog10_bounds hx hv
    rw [abs_mul, abs_of_pos (by positivity : (0 : Rat) < 10 ^ (-ilog10 x)), zpow_neg,
      ← div_eq_mul_inv]
    refine .of_zpow (e := -2) (f := 2) ?_ ?_ (by decide) (by decide)
    · rwa [le_div_iff₀ hpower, ← zpow_add₀ (by norm_num), add_comm]
    · rw [div_le_iff₀ hpower, ← zpow_add₀ (by norm_num), add_comm]
      exact hhigh.le
  obtain ⟨s', hs', hsign, hwithin⟩ := approx_scale10 hx hv (by omega) hinner
  obtain rfl : s = s' := Option.some.inj (hs.symm.trans hs')
  have hcount : roundings (-ilog10 x) ≤ 20 := by
    rw [roundings]
    omega
  have herror := (hwithin.mono hcount).abs_sub_le_of_sign hsign (by decide)
  refine ⟨s, hs, hone, hten, ?_⟩
  calc |s * 10 ^ ilog10 x - v|
      = |s * 10 ^ ilog10 x - v * 10 ^ (-ilog10 x) * 10 ^ ilog10 x| := by rw [hback]
    _ = |s - v * 10 ^ (-ilog10 x)| * 10 ^ ilog10 x := by
        rw [← sub_mul, abs_mul, abs_of_pos hpower]
    _ ≤ |v * 10 ^ (-ilog10 x)| * ((20 : Nat) * 2⁻¹ ^ 52) * 10 ^ ilog10 x :=
        mul_le_mul_of_nonneg_right herror hpower.le
    _ = |v| * (20 * 2⁻¹ ^ 52) := by
        rw [mul_right_comm, ← abs_of_pos hpower, ← abs_mul, hback, Nat.cast_ofNat]

/-- **A double that is shifted there and back is almost what it was**, also if it has few digits,
or it was at the end of the range and is infinite. -/
theorem exists_restored (hx : toRat? x = some v) (hv : v ≠ 0)
    (hy : toRat? y = toRat? (scale10 x (-ilog10 x))) :
    ∃ d, toRat? (scale10 y (ilog10 x)) = finite d ∧ Near 64 d v := by
  obtain ⟨s, hs, hone, hten, hnear⟩ := exists_digits hx hv
  have hfar := natAbs_ilog10_le hx hv
  rw [hs] at hy
  have hlarge := abs_lt_of_toRat? hx
  have hsize : |s * 10 ^ ilog10 x| ≤ |s * 10 ^ ilog10 x - v| + |v| := by
    simpa using abs_add_le (s * 10 ^ ilog10 x - v) v
  obtain ⟨d, hd, hnear'⟩ := exists_near_scale10 (e := ilog10 x) hy hone (by omega) (by
    have hdouble : (2 : Rat) ^ (1025 : Int) = 2 ^ (1024 : Int) * 2 :=
      zpow_add_one₀ (by norm_num) 1024
    rw [hdouble]
    generalize (2 : Rat) ^ (1024 : Int) = bound at hlarge ⊢
    norm_num at hnear
    linarith [abs_nonneg v])
  refine ⟨d, hd, ?_⟩
  have htriangle := abs_sub_le d (s * 10 ^ ilog10 x) v
  rw [Near] at hnear' ⊢
  have hnonneg := abs_nonneg v
  have hunit : (0 : Rat) < 2 ^ (-1074 : Int) := by positivity
  generalize |s * 10 ^ ilog10 x| = size at *
  generalize (2 : Rat) ^ (-1074 : Int) = unit at *
  norm_num at hnear hnear' ⊢
  linarith

/-- Only the last few doubles below the end of the range become infinite. -/
theorem Near.finite_eq (h : Near 64 a b) (hb : |b| * (1 + 2⁻¹ ^ 45) < 2 ^ (1024 : Int)) :
    finite a = some a := by
  refine finite_eq_some.mpr ⟨rfl, ?_⟩
  have hunit : (2 : Rat) ^ (-1074 : Int) ≤ 2 ^ (-47 : Int) :=
    zpow_le_zpow_right₀ (by norm_num) (by norm_num)
  have hgreatest : (2 : Rat) ^ (2 : Int) ≤ 2 ^ (1024 : Int) :=
    zpow_le_zpow_right₀ (by norm_num) (by norm_num)
  have htriangle := abs_sub_abs_le_abs_sub a b
  rw [Near] at h
  generalize (2 : Rat) ^ (-1074 : Int) = unit at *
  generalize (2 : Rat) ^ (1024 : Int) = greatest at *
  norm_num at h hb hunit hgreatest
  rcases le_total |b| 1 with hsmall | hlarge <;> linarith

/-! ## What counts as equal -/

/-- **What comes back of a double counts as equal to it.** -/
theorem close_of_near (hx : toRat? x = some a) (hy : toRat? y = some b) (h : Near 64 a b) :
    close x y = true := by
  rw [Near] at h
  have hunit : (0 : Rat) < 2 ^ (-1074 : Int) := by positivity
  have hsplit : (2 : Rat) ^ (-1030 : Int) = 2 ^ (44 : Int) * 2 ^ (-1074 : Int) :=
    zpow_add₀ (by norm_num) 44 (-1074)
  rcases lt_or_ge |b| (2 ^ (-1030 : Int)) with hfew | hmany
  · -- With so few digits left the distance is less than one unit.
    have hequal : a = b := by
      refine eq_of_abs_sub_lt hx hy ?_
      rw [hsplit] at hfew
      generalize (2 : Rat) ^ (-1074 : Int) = unit at *
      norm_num at h hfew
      linarith
    rw [close, (beq_iff hx hy).mpr hequal, Bool.true_or]
  · refine close_of_abs_sub_le hx hy hmany ?_
    rw [hsplit] at hmany
    rw [abs_sub_comm]
    generalize (2 : Rat) ^ (-1074 : Int) = unit at *
    norm_num at h hmany ⊢
    linarith [abs_nonneg b]

end Binary64
end Mensura
