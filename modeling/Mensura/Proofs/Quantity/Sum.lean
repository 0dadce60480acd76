import Mensura.Proofs.Quantity.Normal

/-!
# Sums of doubles with a unit

A sum is computed in the scale of the operand whose decimal exponent is larger in size, so the
point of the other mantissa may go to the right: `rise a b` says by how many places.  Whether a sum
exists depends on that alone, not on whether the exact sum is a double.

* `Normalized.exists_add`: up to `305` places every sum exists.
* `Normalized.add_not_finite`: from `309` places on it is refused.
* `add_comm_of_natAbs_ne`: operands of exponents of different sizes can be exchanged.
* `Normalized.same_of_natAbs_eq`: exponents of one size make each operand the reference of its own
  order; every step rounds, and a hundred and sixty-nine roundings later the two sums still count
  as equal.

`Normalized.add_total_and_commutative` puts these together.
-/

set_option autoImplicit false

namespace Mensura

/-! ## Shifts -/

namespace Binary64

variable {x : Float} {a : Rat}

/-- The decimal exponent of what has two digits or more before the point is not negative. -/
theorem ilog10_nonneg (hx : toRat? x = some a) (ha : 10 ≤ |a|) : 0 ≤ ilog10 x := by
  have hne : a ≠ 0 := by
    rintro rfl
    norm_num at ha
  have hten : (10 : Rat) ^ (1 : Int) < 10 ^ (ilog10 x + 2) := by
    rw [zpow_one]
    exact ha.trans_lt (ilog10_bounds hx hne).2
  have horder := (zpow_lt_zpow_iff_right₀ (by norm_num)).mp hten
  omega

end Binary64

namespace Quantity

open Binary64

variable {a b q : Quantity Float} {m μ n ν ρ v r : Rat} {ref : PhysUnit Float} {x y num : Float}
  {k : Nat}

/-! ## Carries -/

/-- A finite mantissa in the scale of a unit is a quantity: either as it is or after a carry. -/
theorem ofAligned_eq (dim : Dimension) (ref : PhysUnit Float) (hx : toRat? num = some v) :
    ∃ carry : Int, 0 ≤ carry ∧ (carry = 0 ∨ v ≠ 0 ∧ carry = ilog10 num) ∧
      ofAligned dim ref num = normalize ⟨Scalar.scale10 num (-carry),
        ⟨dim, ref.decExp + carry, ref.multiplier, ref.isFactor⟩⟩ := by
  rw [ofAligned]
  split
  · next hcarries =>
    simp only [Bool.and_eq_true, Bool.not_eq_true'] at hcarries
    obtain ⟨⟨hzero, -⟩, hlarge⟩ := hcarries
    have hten : 10 ≤ |v| := by
      have hlt : decide (num.abs < Scalar.ofNat 10) = false := hlarge
      have hvalue : toRat? (Scalar.ofNat 10) = some 10 := by decide +kernel
      rwa [decide_eq_false_iff_not, lt_iff (toRat?_abs hx) hvalue, not_lt] at hlt
    have hne : v ≠ 0 := by
      rintro rfl
      norm_num at hten
    refine ⟨ilog10 num, ilog10_nonneg hx hten, .inr ⟨hne, rfl⟩, ?_⟩
    rw [ofParts_eq]
    rfl
  · refine ⟨0, le_rfl, .inl rfl, ?_⟩
    rw [ofParts_eq]
    rw [neg_zero, scale10_zero]
    rfl

/-! ## Sums -/

/-- A finite sum in the scale of a unit has a value. -/
theorem exists_ofAligned (dim : Dimension) (href : NormalFactor ref.multiplier ρ)
    (hx : toRat? num = some v) : ∃ s, ofAligned dim ref num = .ok s ∧ IsNumber s.value := by
  obtain ⟨carry, hcarry, -, heq⟩ := ofAligned_eq dim ref hx
  obtain ⟨c, hc, -⟩ := exists_toRat?_scale10_of_nonpos (neg_nonpos.mpr hcarry) hx
  rw [heq]
  exact exists_normalize href hc

theorem ofAligned_not_finite (dim : Dimension) (ref : PhysUnit Float) (hx : toRat? num = none) :
    ofAligned dim ref num = .error (.calc (.notFinite (Scalar.text num))) := by
  rw [ofAligned, isFinite_eq_false hx, ofParts_eq]
  simp only [Bool.and_false, Bool.false_and, Bool.false_eq_true, if_false]
  exact normalize_not_finite hx

/-! ## Alignment -/

/-- Two normal multipliers differ by a factor below ten. -/
theorem NormalFactor.ratio_bounds (h : NormalFactor x μ) (href : NormalFactor y ρ) :
    10 ^ (-1 : Int) ≤ μ / ρ ∧ μ / ρ ≤ 10 ^ (1 : Int) := by
  have hone := h.one_le
  have hone' := href.one_le
  have hten := h.lt_ten
  have hten' := href.lt_ten
  rw [le_div_iff₀ href.pos, div_le_iff₀ href.pos]
  norm_num
  constructor <;> linarith

/-- The ratio of two normal multipliers is rounded once. -/
theorem NormalFactor.ratio (h : NormalFactor x μ) (href : NormalFactor y ρ) :
    Approx 1 (x / y) (μ / ρ) := by
  obtain ⟨hlow, hhigh⟩ := h.ratio_bounds href
  refine Approx.div (.of_toRat? h.value h.pos.ne') (.of_toRat? href.value href.pos.ne')
    (by decide) ?_
  rw [abs_of_pos (div_pos h.pos href.pos)]
  exact .of_zpow hlow hhigh (by decide) (by decide)

/-- The mantissa of the reference is not shifted. -/
theorem Normalized.aligned_self (h : Normalized q m μ) :
    toRat? (aligned q.unit q) = some m := by
  have hratio : toRat? (q.unit.multiplier / q.unit.multiplier) = some 1 := by
    have hne := h.multiplier.pos.ne'
    rw [toRat?_div_eq h.multiplier.value h.multiplier.value hne, div_self hne,
      finite_nearestDouble toRat?_one]
  rw [aligned, sub_self, scale10_zero, toRat?_mul_eq h.mantissa hratio, mul_one,
    finite_nearestDouble h.mantissa]

/-- The size of a shifted mantissa. -/
theorem shifted_bounds {e : Int} (hm : 1 ≤ |m|) (hm' : |m| < 10) (hlow : 10 ^ (-1 : Int) ≤ r)
    (hhigh : r ≤ 10 ^ (1 : Int)) (he : |e| ≤ 305) :
    10 ^ (-306 : Int) ≤ |m * 10 ^ e * r| ∧ |m * 10 ^ e * r| ≤ 10 ^ (307 : Int) := by
  obtain ⟨hleast, hgreatest⟩ := abs_le.mp he
  have hten : (1 : Rat) ≤ 10 := by norm_num
  have hr : 0 < r := hlow.trans_lt' (by norm_num)
  have hpos : (0 : Rat) < 10 ^ e := by positivity
  rw [abs_mul, abs_mul, abs_of_pos hpos, abs_of_pos hr]
  constructor
  · calc (10 : Rat) ^ (-306 : Int) ≤ 10 ^ (e + -1) := zpow_le_zpow_right₀ hten (by omega)
      _ = 10 ^ e * 10 ^ (-1 : Int) := zpow_add₀ (by norm_num) e (-1)
      _ ≤ |m| * 10 ^ e * r :=
          mul_le_mul (le_mul_of_one_le_left hpos.le hm) hlow (by positivity) (by positivity)
  · calc |m| * 10 ^ e * r ≤ 10 * 10 ^ e * 10 ^ (1 : Int) :=
          mul_le_mul (mul_le_mul_of_nonneg_right hm'.le hpos.le) hhigh hr.le (by positivity)
      _ = 10 ^ (1 + e + 1) := by rw [zpow_add₀ (by norm_num), zpow_add₀ (by norm_num), zpow_one]
      _ ≤ 10 ^ (307 : Int) := zpow_le_zpow_right₀ hten (by omega)

/-- A mantissa that the scale of the reference leaves well inside the range. -/
theorem Normalized.aligned (h : Normalized q m μ) (href : NormalFactor ref.multiplier ρ)
    (hm : m ≠ 0) (hshift : |q.unit.decExp - ref.decExp| ≤ 305) :
    Approx 35 (aligned ref q) (m * 10 ^ (q.unit.decExp - ref.decExp) * (μ / ρ)) := by
  obtain ⟨hone, hten⟩ := h.digit.resolve_left hm
  obtain ⟨hlow, hhigh⟩ := h.multiplier.ratio_bounds href
  have hself : Inner |m| :=
    .of_zpow (e := 0) (f := 1) (by simpa using hone) (by simpa using hten.le) (by decide)
      (by decide)
  obtain ⟨hleast, hgreatest⟩ := shifted_bounds hone hten (r := 1) (by norm_num) (by norm_num) hshift
  rw [mul_one] at hleast hgreatest
  obtain ⟨hleast', hgreatest'⟩ := shifted_bounds hone hten hlow hhigh hshift
  exact ((Approx.of_toRat? h.mantissa hm).scale10 (by decide) hself
    (.of_zpow hleast hgreatest (by decide) le_rfl)).mul (h.multiplier.ratio href) (by decide)
    (.of_zpow hleast' hgreatest' (by decide) le_rfl)

/-- A mantissa that the scale of the reference makes no larger, so that it may be lost. -/
theorem Normalized.exists_aligned_of_le (h : Normalized q m μ)
    (href : NormalFactor ref.multiplier ρ)
    (hle : ∃ c, toRat? (Scalar.scale10 q.mantissa (q.unit.decExp - ref.decExp)) = some c ∧
      |c| ≤ |m|) :
    ∃ c, toRat? (Quantity.aligned ref q) = some c ∧ |c| ≤ 3 / 2 * 2 ^ (1022 : Int) := by
  obtain ⟨c, hc, hle⟩ := hle
  have hm : |m| ≤ 10 := by
    rcases h.digit with rfl | ⟨-, hten⟩
    · norm_num
    · exact hten.le
  obtain ⟨-, hhigh⟩ := h.multiplier.ratio_bounds href
  obtain ⟨t, ht, hsign, hwithin⟩ := h.multiplier.ratio href
  have hratio : 0 < μ / ρ := div_pos h.multiplier.pos href.pos
  have ht' : |t| ≤ 20 := by
    have hnear := (hwithin.bounds (by decide)).2
    rw [abs_of_pos hratio] at hnear
    norm_num at hnear hhigh
    linarith
  have hproduct : |c * t| ≤ 200 := by
    rw [abs_mul]
    exact (mul_le_mul (hle.trans hm) ht' (abs_nonneg t) (by norm_num)).trans (by norm_num)
  have hinner : Inner 400 :=
    .of_zpow (e := 0) (f := 3) (by norm_num) (by norm_num) (by decide) (by decide)
  refine ⟨nearestDouble (c * t), ?_, ?_⟩
  · rw [Quantity.aligned, toRat?_mul_eq hc ht, finite_nearestDouble_of_lt]
    exact hproduct.trans_lt ((by norm_num : (200 : Rat) < 400).trans hinner.lt_two_pow_1023)
  · calc |nearestDouble (c * t)| ≤ 2 * |c * t| := abs_nearestDouble_le _
      _ ≤ 400 := by linarith
      _ ≤ 2 ^ (1022 : Int) := hinner.le_greatest
      _ ≤ 3 / 2 * 2 ^ (1022 : Int) := le_mul_of_one_le_left (by positivity) (by norm_num)

/-- A mantissa in the scale of a reference that moves its point by at most `305` places to the
right. -/
theorem Normalized.exists_aligned (h : Normalized q m μ) (href : NormalFactor ref.multiplier ρ)
    (hshift : q.unit.decExp - ref.decExp ≤ 305) :
    ∃ c, toRat? (Quantity.aligned ref q) = some c ∧ |c| ≤ 3 / 2 * 2 ^ (1022 : Int) := by
  rcases le_or_gt (q.unit.decExp - ref.decExp) 0 with hdown | hup
  · exact h.exists_aligned_of_le href (exists_toRat?_scale10_of_nonpos hdown h.mantissa)
  rcases eq_or_ne m 0 with rfl | hm
  · exact h.exists_aligned_of_le href ⟨0, toRat?_scale10_of_zero h.mantissa _, le_rfl⟩
  · obtain ⟨hone, hten⟩ := h.digit.resolve_left hm
    obtain ⟨hlow, hhigh⟩ := h.multiplier.ratio_bounds href
    have hfar : |q.unit.decExp - ref.decExp| ≤ 305 := by
      rwa [abs_of_pos hup]
    obtain ⟨hleast, hmost⟩ := shifted_bounds hone hten hlow hhigh hfar
    have hgreatest := (Inner.of_zpow hleast hmost (by decide) le_rfl).le_greatest
    obtain ⟨c, hc, -, hwithin⟩ := h.aligned href hm hfar
    refine ⟨c, hc, ?_⟩
    have hnear := (hwithin.bounds (by decide)).2
    generalize (2 : Rat) ^ (1022 : Int) = greatest at hgreatest ⊢
    generalize |m * _ * _| = size at hgreatest hnear
    norm_num at hnear
    linarith [abs_nonneg c]

/-! ## Whether a sum exists -/

/-- How many places the point of a mantissa goes to the right in a sum. -/
def rise (a b : Quantity Float) : Int :=
  max a.unit.decExp b.unit.decExp - (reference a b).decExp

theorem reference_eq_or (a b : Quantity Float) :
    reference a b = a.unit ∨ reference a b = b.unit := by
  rw [reference]
  split
  · exact .inr rfl
  · exact .inl rfl

/-- The mantissa of the reference and a shifted one have a finite sum. -/
theorem exists_toRat?_add {x y : Float} {c d : Rat} (hx : toRat? x = some c)
    (hy : toRat? y = some d) (hc : |c| ≤ 10) (hd : |d| ≤ 3 / 2 * 2 ^ (1022 : Int)) :
    ∃ v, toRat? (x + y) = some v := by
  refine ⟨_, (toRat?_add_eq hx hy).trans (finite_nearestDouble_of_lt ?_)⟩
  have hdouble : (2 : Rat) ^ (1023 : Int) = 2 ^ (1022 : Int) * 2 :=
    zpow_add_one₀ (by norm_num) 1022
  have hlarge : (2 : Rat) ^ (5 : Int) ≤ 2 ^ (1022 : Int) :=
    zpow_le_zpow_right₀ (by norm_num) (by norm_num)
  rw [hdouble]
  generalize (2 : Rat) ^ (1022 : Int) = greatest at hd hlarge ⊢
  norm_num at hlarge
  linarith [abs_add_le c d]

theorem Normalized.abs_mantissa_le (h : Normalized q m μ) : |m| ≤ 10 := by
  rcases h.digit with rfl | ⟨-, hten⟩
  · norm_num
  · exact hten.le

/-- **A sum exists if it shifts no mantissa by more than `305` places to the left.** -/
theorem Normalized.exists_add (ha : Normalized a m μ) (hb : Normalized b n ν)
    (hdim : a.dim = b.dim) (hrise : rise a b ≤ 305) :
    ∃ s, a.add b = .ok s ∧ IsNumber s.value := by
  rw [add, if_pos hdim]
  rw [rise] at hrise
  rcases reference_eq_or a b with href | href
  · rw [href] at hrise ⊢
    obtain ⟨c, hc, hbound⟩ := hb.exists_aligned ha.multiplier (by omega)
    obtain ⟨v, hv⟩ := exists_toRat?_add ha.aligned_self hc ha.abs_mantissa_le hbound
    exact exists_ofAligned _ ha.multiplier hv
  · rw [href] at hrise ⊢
    obtain ⟨c, hc, hbound⟩ := ha.exists_aligned hb.multiplier (by omega)
    obtain ⟨v, hv⟩ := exists_toRat?_add hb.aligned_self hc hb.abs_mantissa_le hbound
    rw [float_add_comm] at hv
    exact exists_ofAligned _ hb.multiplier hv

/-- A mantissa that is shifted by `309` places to the left becomes infinite. -/
theorem Normalized.aligned_not_finite (h : Normalized q m μ) (hm : m ≠ 0)
    (hshift : 309 ≤ q.unit.decExp - ref.decExp) : toRat? (Quantity.aligned ref q) = none :=
  toRat?_mul_eq_none
    (toRat?_scale10_of_large h.mantissa (h.digit.resolve_left hm).1 hshift)

/-- **A sum that shifts a mantissa by `309` places to the left or more is refused.** -/
theorem Normalized.add_not_finite (ha : Normalized a m μ) (hb : Normalized b n ν)
    (hdim : a.dim = b.dim) (hm : m ≠ 0) (hn : n ≠ 0) (hrise : 309 ≤ rise a b) :
    ∃ text, a.add b = .error (.calc (.notFinite text)) := by
  rw [add, if_pos hdim]
  rw [rise] at hrise
  refine ⟨_, ofAligned_not_finite _ _ ?_⟩
  rcases reference_eq_or a b with href | href
  · rw [href] at hrise ⊢
    rw [float_add_comm]
    exact toRat?_add_eq_none (hb.aligned_not_finite hn (by omega))
  · rw [href] at hrise ⊢
    exact toRat?_add_eq_none (ha.aligned_not_finite hm (by omega))

/-! ## The order of the operands -/

/-- **Operands of exponents of different sizes can be exchanged.** -/
theorem add_comm_of_natAbs_ne (hdim : a.dim = b.dim)
    (hne : a.unit.decExp.natAbs ≠ b.unit.decExp.natAbs) : a.add b = b.add a := by
  have href : reference a b = reference b a := by
    rw [reference, reference]
    split <;> split <;> first | rfl | omega
  rw [add, add, if_pos hdim, if_pos hdim.symm, href, hdim]
  exact congrArg (ofAligned _ _) (float_add_comm _ _)

theorem same_self {s : Quantity Float} (h : IsNumber s.value) : s.same s = true := by
  have hclose : Scalar.close s.value s.value = true := by
    change close s.value s.value = true
    rw [close, h.beq_self, Bool.true_or]
  simp [same, hclose]

/-- The mantissa of a sum before it is normalized, and its exponent. -/
theorem exists_carried (dim : Dimension) (ref : PhysUnit Float) (hnum : Approx k num r)
    (hk : k ≤ 200) (hr : Inner |r|) : ∃ carry : Int,
      ofAligned dim ref num = normalize ⟨Scalar.scale10 num (-carry),
        ⟨dim, ref.decExp + carry, ref.multiplier, ref.isFactor⟩⟩ ∧
      Approx (k + 33) (Scalar.scale10 num (-carry)) (r * 10 ^ (-carry)) ∧
      Inner |r * 10 ^ (-carry)| := by
  obtain ⟨v, hv, -⟩ := id hnum
  obtain ⟨carry, -, hcarry, heq⟩ := ofAligned_eq dim ref hv
  refine ⟨carry, heq, ?_⟩
  rcases hcarry with rfl | ⟨-, rfl⟩
  · rw [neg_zero, scale10_zero, zpow_zero, mul_one]
    exact ⟨hnum.mono (by omega), hr⟩
  · obtain ⟨hshifted, hleast, hgreatest⟩ := hnum.digits (by omega) hr
    exact ⟨hshifted, .of_zpow hleast hgreatest (by decide) (by decide)⟩

/-- The value of a mantissa in the scale of a unit, some roundings later. -/
theorem ofAligned_value (dim : Dimension) (hnum : Approx k num r) (hk : k ≤ 160)
    (hr : Inner |r|) (hunit : toRat? ref.multiplier = some ρ) (hρ : Inner |ρ|)
    (hvalue : Inner |r * ρ * 10 ^ ref.decExp|) :
    ∃ s, ofAligned dim ref num = .ok s ∧ s.dim = dim ∧
      Approx (k + 133) s.value (r * ρ * 10 ^ ref.decExp) := by
  obtain ⟨carry, heq, hcarried, hinner⟩ := exists_carried dim ref hnum (by omega) hr
  have hscale : r * 10 ^ (-carry) * ρ * 10 ^ (ref.decExp + carry) = r * ρ * 10 ^ ref.decExp := by
    rw [zpow_add₀ (by norm_num), zpow_neg]
    field_simp
  rw [heq, ← hscale]
  exact normalize_value (q := ⟨_, dim, ref.decExp + carry, ref.multiplier, ref.isFactor⟩) hcarried
    (by omega) hinner hunit hρ (by rwa [hscale])

/-- The value of a sum of positive quantities in the scale of the first. -/
theorem Normalized.add_value (ha : Normalized a m μ) (hb : Normalized b n ν)
    (hdim : a.dim = b.dim) (href : reference a b = a.unit)
    (hshift : |b.unit.decExp - a.unit.decExp| ≤ 305) (hm : 0 < m) (hn : 0 < n)
    (hsum : Inner (m * μ * 10 ^ a.unit.decExp + n * ν * 10 ^ b.unit.decExp)) :
    ∃ s, a.add b = .ok s ∧ s.dim = a.dim ∧
      Approx 169 s.value (m * μ * 10 ^ a.unit.decExp + n * ν * 10 ^ b.unit.decExp) := by
  obtain ⟨hone, hten⟩ := ha.digit.resolve_left hm.ne'
  obtain ⟨hone', hten'⟩ := hb.digit.resolve_left hn.ne'
  rw [abs_of_pos hm] at hone hten
  obtain ⟨hlow, hhigh⟩ := hb.multiplier.ratio_bounds ha.multiplier
  have hself : Approx 35 (Quantity.aligned a.unit a) m :=
    (Approx.of_toRat? ha.aligned_self hm.ne').mono (by decide)
  have hother := hb.aligned ha.multiplier hn.ne' hshift
  have hbound := (shifted_bounds hone' hten' hlow hhigh hshift).2
  have hpos : 0 < n * 10 ^ (b.unit.decExp - a.unit.decExp) * (ν / μ) :=
    mul_pos (mul_pos hn (by positivity)) (div_pos hb.multiplier.pos ha.multiplier.pos)
  have htotal : (m + n * 10 ^ (b.unit.decExp - a.unit.decExp) * (ν / μ)) * μ *
      10 ^ a.unit.decExp = m * μ * 10 ^ a.unit.decExp + n * ν * 10 ^ b.unit.decExp := by
    have hne := ha.multiplier.pos.ne'
    rw [zpow_sub₀ (by norm_num)]
    field_simp
  have hinner : Inner (m + n * 10 ^ (b.unit.decExp - a.unit.decExp) * (ν / μ)) := by
    rw [abs_of_pos hpos] at hbound
    refine .of_decimal ?_ ?_
    · exact (zpow_le_one_of_nonpos₀ (by norm_num) (by norm_num)).trans (by linarith)
    · have hlarge : (10 : Rat) ^ (1 : Int) ≤ 10 ^ (307 : Int) :=
        zpow_le_zpow_right₀ (by norm_num) (by norm_num)
      rw [zpow_one] at hlarge
      rw [two_mul]
      exact add_le_add (hten.le.trans hlarge) hbound
  have hnum := hself.add hother (by decide) hm hpos hinner
  rw [add, if_pos hdim, href]
  rw [← htotal] at hsum ⊢
  exact ofAligned_value a.dim hnum (by decide) (by rwa [abs_of_pos hinner.pos])
    ha.multiplier.value ha.multiplier.inner (by rwa [abs_of_pos hsum.pos])

/-- **Exponents of one size make each operand the reference of its own order; the two sums are the
same up to rounding.** -/
theorem Normalized.same_of_natAbs_eq (ha : Normalized a m μ) (hb : Normalized b n ν)
    (hdim : a.dim = b.dim) (hsize : a.unit.decExp.natAbs = b.unit.decExp.natAbs)
    (hrise : rise a b ≤ 305) (hrise' : rise b a ≤ 305) (hm : 0 < m) (hn : 0 < n)
    (hsum : Inner (m * μ * 10 ^ a.unit.decExp + n * ν * 10 ^ b.unit.decExp)) :
    ∃ s t, a.add b = .ok s ∧ b.add a = .ok t ∧ s.same t = true := by
  have href : reference a b = a.unit := if_neg (by omega)
  have href' : reference b a = b.unit := if_neg (by omega)
  rw [rise, href] at hrise
  rw [rise, href'] at hrise'
  obtain ⟨s, hs, hsdim, hsvalue⟩ :=
    ha.add_value hb hdim href (by rw [abs_le]; omega) hm hn hsum
  obtain ⟨t, ht, htdim, htvalue⟩ :=
    hb.add_value ha hdim.symm href' (by rw [abs_le]; omega) hn hm (by rwa [add_comm])
  rw [add_comm] at htvalue
  have hclose : Scalar.close s.value t.value = true :=
    hsvalue.close htvalue (by decide) (by rwa [abs_of_pos hsum.pos])
  have hdims : s.dim = t.dim := by rw [hsdim, htdim, hdim]
  exact ⟨s, t, hs, ht, by simp [same, hdims, hclose]⟩

/-- **When a sum exists, and whether its order matters.**  As long as neither order shifts a
mantissa by more than `305` places to the left, both sums exist; they are one quantity if the
exponents differ in size, and otherwise the same up to rounding.  A shift by `309` places ends in
an error, whatever the exact sum is. -/
theorem Normalized.add_total_and_commutative (ha : Normalized a m μ) (hb : Normalized b n ν)
    (hdim : a.dim = b.dim) :
    (rise a b ≤ 305 → rise b a ≤ 305 →
      ∃ s t, a.add b = .ok s ∧ b.add a = .ok t ∧
        (a.unit.decExp.natAbs ≠ b.unit.decExp.natAbs → s = t) ∧
        (0 < m → 0 < n →
          (a.unit.decExp.natAbs ≠ b.unit.decExp.natAbs ∨
            Inner (m * μ * 10 ^ a.unit.decExp + n * ν * 10 ^ b.unit.decExp)) →
          s.same t = true)) ∧
    (309 ≤ rise a b → m ≠ 0 → n ≠ 0 → ∃ text, a.add b = .error (.calc (.notFinite text))) := by
  refine ⟨fun hrise hrise' ↦ ?_, fun hrise hm hn ↦ ha.add_not_finite hb hdim hm hn hrise⟩
  obtain ⟨s, hs, hnumber⟩ := ha.exists_add hb hdim hrise
  obtain ⟨t, ht, -⟩ := hb.exists_add ha hdim.symm hrise'
  have hequal (hne : a.unit.decExp.natAbs ≠ b.unit.decExp.natAbs) : s = t := by
    rw [add_comm_of_natAbs_ne hdim hne, ht] at hs
    exact (Except.ok.inj hs).symm
  refine ⟨s, t, hs, ht, hequal, fun hm hn hcase ↦ ?_⟩
  by_cases hne : a.unit.decExp.natAbs = b.unit.decExp.natAbs
  · have hsum := hcase.resolve_left (not_not.mpr hne)
    obtain ⟨s', t', hs', ht', hsame⟩ :=
      ha.same_of_natAbs_eq hb hdim hne hrise hrise' hm hn hsum
    rw [hs, Except.ok.injEq] at hs'
    rw [ht, Except.ok.injEq] at ht'
    rwa [hs', ht']
  · rw [← hequal hne]
    exact same_self hnumber

/-- `10 ^ e`, a plain number. -/
def powerOfTen (e : Int) : Quantity Float :=
  ⟨Scalar.ofNat 1, .decimal 1 e⟩

theorem normalized_powerOfTen (e : Int) : Normalized (powerOfTen e) 1 1 where
  mantissa := toRat?_ofNat_one
  multiplier := ⟨toRat?_ofNat_one, le_rfl, by norm_num⟩
  digit := .inr (by norm_num)

theorem inner_sum {e f : Int} (he : -306 ≤ e) (hef : e ≤ f) (hf : f ≤ 306) :
    Inner (1 * 1 * 10 ^ e + 1 * 1 * 10 ^ f) := by
  have hten : (1 : Rat) ≤ 10 := by norm_num
  have hpos : (0 : Rat) < 10 ^ f := by positivity
  rw [mul_one, one_mul, one_mul]
  refine .of_zpow (le_add_of_nonneg_right hpos.le) ?_ he (by omega : f + 1 ≤ 307)
  rw [zpow_add_one₀ (by norm_num)]
  linarith [zpow_le_zpow_right₀ hten hef]

/-- Sums of powers of ten: of exponents of different sizes, of one size, and too far apart. -/
theorem add_powerOfTen :
    (∃ s t, (powerOfTen 0).add (powerOfTen 3) = .ok s ∧
      (powerOfTen 3).add (powerOfTen 0) = .ok t ∧ s = t ∧ s.same t = true) ∧
    (∃ s t, (powerOfTen (-100)).add (powerOfTen 100) = .ok s ∧
      (powerOfTen 100).add (powerOfTen (-100)) = .ok t ∧ s.same t = true) ∧
    ∃ text, (powerOfTen (-300)).add (powerOfTen 200) = .error (.calc (.notFinite text)) := by
  have hnormal := normalized_powerOfTen
  obtain ⟨s, t, hs, ht, hequal, hsame⟩ :=
    ((hnormal 0).add_total_and_commutative (hnormal 3) rfl).1 (by decide) (by decide)
  obtain ⟨s', t', hs', ht', -, hsame'⟩ :=
    ((hnormal (-100)).add_total_and_commutative (hnormal 100) rfl).1 (by decide) (by decide)
  exact ⟨⟨s, t, hs, ht, hequal (by decide), hsame one_pos one_pos (.inl (by decide))⟩,
    ⟨s', t', hs', ht', hsame' one_pos one_pos
      (.inr (inner_sum (by decide) (by decide) (by decide)))⟩,
    ((hnormal (-300)).add_total_and_commutative (hnormal 200) rfl).2 (by decide) one_ne_zero
      one_ne_zero⟩

/-- The sum of `10 ^ -200` and `10 ^ 200` is a double, but it is only found from the right; the sum
of `10 ^ -300` and `10 ^ 200` is found in neither order. -/
theorem exists_sum_refused :
    Scalar.isFinite (powerOfTen (-200)).value = true ∧
    Scalar.isFinite (powerOfTen (-300)).value = true ∧
    Scalar.isFinite (powerOfTen 200).value = true ∧
    Inner (1 * 1 * 10 ^ (-200 : Int) + 1 * 1 * 10 ^ (200 : Int)) ∧
    (∃ text, (powerOfTen (-200)).add (powerOfTen 200) = .error (.calc (.notFinite text))) ∧
    (∃ s, (powerOfTen 200).add (powerOfTen (-200)) = .ok s) ∧
    Inner (1 * 1 * 10 ^ (-300 : Int) + 1 * 1 * 10 ^ (200 : Int)) ∧
    (∃ text, (powerOfTen (-300)).add (powerOfTen 200) = .error (.calc (.notFinite text))) ∧
    ∃ text, (powerOfTen 200).add (powerOfTen (-300)) = .error (.calc (.notFinite text)) := by
  have hnormal := normalized_powerOfTen
  obtain ⟨s, hs, -⟩ := (hnormal 200).exists_add (hnormal (-200)) rfl (by decide)
  exact ⟨by decide +kernel, by decide +kernel, by decide +kernel,
    inner_sum (by decide) (by decide) (by decide),
    (hnormal (-200)).add_not_finite (hnormal 200) rfl one_ne_zero one_ne_zero (by decide), ⟨s, hs⟩,
    inner_sum (by decide) (by decide) (by decide),
    (hnormal (-300)).add_not_finite (hnormal 200) rfl one_ne_zero one_ne_zero (by decide),
    (hnormal 200).add_not_finite (hnormal (-300)) rfl one_ne_zero one_ne_zero (by decide)⟩

end Quantity
end Mensura
