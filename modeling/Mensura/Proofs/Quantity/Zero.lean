import Mensura.Proofs.Quantity.Sum

/-!
# Zeros with a scale

A zero keeps the exponent of its unit, whatever it is, and a sum is computed in the scale of the
operand whose exponent is larger in size, whether or not that is a zero.  So a zero may move the
point of what it is added to.

* `ZeroSum.add_of_reference`: in the scale of the other operand a zero is neutral.
* `ZeroSum.add_of_staysInside`: in its own scale it is as long as all numbers on the way stay well
  inside the range; the value of the sum is a hundred and sixty-eight roundings off.
* `ZeroSum.add_not_finite`, `ZeroSum.add_vanishes`: a shift by `309` places to the left is refused,
  and one by `345` places to the right leaves zero.

`ZeroSum.neutral` puts these together.
-/

set_option autoImplicit false

namespace Mensura
namespace Quantity

open Binary64

variable {a b q z : Quantity Float} {m μ ρ v : Rat} {ref : PhysUnit Float} {x num : Float}

/-! ## Aligned zeros -/

/-- The ratio of a multiplier to a normal one is finite. -/
theorem NormalFactor.exists_ratio (href : NormalFactor ref.multiplier μ) (hx : toRat? x = some ρ) :
    ∃ t, toRat? (x / ref.multiplier) = some t := by
  have hsmaller : |ρ / μ| ≤ |ρ| := by
    rw [abs_div, abs_of_pos href.pos]
    exact div_le_self (abs_nonneg ρ) href.one_le
  obtain ⟨hlow, hhigh⟩ := abs_le.mp hsmaller
  obtain ⟨bound, hle, hone, hdouble, hless⟩ : ∃ bound : Rat, |ρ| ≤ bound ∧ 1 ≤ bound ∧
      toDouble bound = bound ∧ bound < 2 ^ (1024 : Int) := by
    rcases le_total 1 |ρ| with hlarge | hsmall
    · exact ⟨|ρ|, le_rfl, hlarge, toDouble_of_toRat? (toRat?_abs hx), abs_lt_of_toRat? hx⟩
    · exact ⟨1, hsmall, le_rfl, toDouble_of_toRat? toRat?_one,
        one_lt_zpow₀ (by norm_num) (by norm_num)⟩
  have habove := nearestDouble_le (hhigh.trans hle) hone hdouble
  have hbelow := nearestDouble_le (r := -(ρ / μ)) (by linarith) hone hdouble
  rw [nearestDouble_neg] at hbelow
  refine ⟨nearestDouble (ρ / μ), (toRat?_div_eq hx href.value href.pos.ne').trans ?_⟩
  exact finite_eq_some.mpr ⟨rfl, (abs_le.mpr ⟨by linarith, habove⟩).trans_lt hless⟩

theorem toRat?_zero_mul {t : Rat} {y : Float} (hx : toRat? x = some 0) (hy : toRat? y = some t) :
    toRat? (x * y) = some 0 := by
  rw [toRat?_mul_eq hx hy, zero_mul, nearestDouble_zero, finite_zero]

theorem aligned_zero {t : Rat} (hz : toRat? z.mantissa = some 0)
    (hratio : toRat? (z.unit.multiplier / ref.multiplier) = some t) :
    toRat? (aligned ref z) = some 0 :=
  toRat?_zero_mul (toRat?_scale10_of_zero hz _) hratio

theorem aligned_zero_self (hz : toRat? z.mantissa = some 0) :
    toRat? (aligned z.unit z) = some 0 := by
  obtain ⟨ρ, hρ, hne⟩ := exists_multiplier z.unit
  refine aligned_zero (t := 1) hz ?_
  rw [toRat?_div_eq hρ hρ hne, div_self hne, finite_nearestDouble toRat?_one]

/-- A zero has the value zero, whatever its scale. -/
theorem value_zero (hz : toRat? z.mantissa = some 0) : toRat? z.value = some 0 := by
  obtain ⟨ρ, hρ, -⟩ := exists_multiplier z.unit
  exact toRat?_scale10_of_zero (toRat?_zero_mul hz hρ) _

/-! ## Normalized quantities -/

theorem Normalized.inner (h : Normalized q m μ) (hm : m ≠ 0) : Inner |m| ∧ Inner |m * μ| := by
  obtain ⟨hone, hten⟩ := h.digit.resolve_left hm
  have hone' := h.multiplier.one_le
  have hten' := h.multiplier.lt_ten
  refine ⟨.of_zpow (e := 0) (f := 1) (by simpa using hone) (by simpa using hten.le) (by decide)
    (by decide), ?_⟩
  rw [abs_mul, abs_of_pos h.multiplier.pos]
  refine .of_zpow (e := 0) (f := 2) ?_ ?_ (by decide) (by decide)
  · simpa using one_le_mul_of_one_le_of_one_le hone hone'
  · exact (mul_le_mul hten.le hten'.le h.multiplier.pos.le (by norm_num)).trans (by norm_num)

/-- A mantissa of the same value with the same unit is the same quantity. -/
theorem Normalized.same_of_mantissa (h : Normalized q m μ) (hm : m ≠ 0)
    (hx : toRat? num = some m) (hv : toRat? q.value = some v) :
    same ⟨num, q.unit⟩ q = true := by
  have hproduct : finite (nearestDouble (m * μ)) = some (nearestDouble (m * μ)) :=
    finite_nearestDouble_of_lt (h.inner hm).2.lt_two_pow_1023
  have hvalue : toRat? (value ⟨num, q.unit⟩) = some v := by
    rw [← hv]
    exact toRat?_scale10_congr ((toRat?_mul_eq hx h.multiplier.value).trans hproduct)
      ((toRat?_mul_eq h.mantissa h.multiplier.value).trans hproduct) _
  have hclose : Scalar.close (value ⟨num, q.unit⟩) q.value = true := by
    change close _ _ = true
    rw [close, (beq_iff hvalue hv).mpr rfl, Bool.true_or]
  simp [same, dim, hclose]

/-! ## Sums with a zero -/

/-- A sum of a zero `z` and a normalized quantity `q` that is not zero, in either order; `ρ` is the
multiplier of the zero. -/
structure ZeroSum (a b q z : Quantity Float) (m μ ρ : Rat) : Prop where
  normal : Normalized q m μ
  ne_zero : m ≠ 0
  zero : toRat? z.mantissa = some 0
  multiplier : toRat? z.unit.multiplier = some ρ
  dim : z.dim = q.dim
  order : a = z ∧ b = q ∨ a = q ∧ b = z

/-- Every number on the way to the sum in the scale of the zero lies well inside the range. -/
structure StaysInside (q z : Quantity Float) (m μ ρ : Rat) : Prop where
  multiplier : Inner |ρ|
  ratio : Inner |μ / ρ|
  shifted : Inner |m * 10 ^ (q.unit.decExp - z.unit.decExp)|
  aligned : Inner |m * 10 ^ (q.unit.decExp - z.unit.decExp) * (μ / ρ)|
  value : Inner |m * μ * 10 ^ q.unit.decExp|

/-- Between normal quantities, up to `305` places are few enough. -/
theorem StaysInside.of_normal (hq : Normalized q m μ) (hm : m ≠ 0)
    (hz : NormalFactor z.unit.multiplier ρ) (hshift : |q.unit.decExp - z.unit.decExp| ≤ 305)
    (hvalue : Inner |m * μ * 10 ^ q.unit.decExp|) : StaysInside q z m μ ρ := by
  obtain ⟨hone, hten⟩ := hq.digit.resolve_left hm
  obtain ⟨hlow, hhigh⟩ := hq.multiplier.ratio_bounds hz
  obtain ⟨hleast, hgreatest⟩ := shifted_bounds hone hten (r := 1) (by norm_num) (by norm_num) hshift
  rw [mul_one] at hleast hgreatest
  obtain ⟨hleast', hgreatest'⟩ := shifted_bounds hone hten hlow hhigh hshift
  refine ⟨hz.inner, ?_, .of_zpow hleast hgreatest (by decide) le_rfl,
    .of_zpow hleast' hgreatest' (by decide) le_rfl, hvalue⟩
  rw [abs_of_pos (div_pos hq.multiplier.pos hz.pos)]
  exact .of_zpow hlow hhigh (by decide) (by decide)

namespace ZeroSum

theorem multiplier_ne_zero (h : ZeroSum a b q z m μ ρ) : ρ ≠ 0 := by
  obtain ⟨ρ', hρ', hne⟩ := exists_multiplier z.unit
  rw [h.multiplier, Option.some.injEq] at hρ'
  rwa [hρ']

theorem reference_eq (h : ZeroSum a b q z m μ ρ) :
    reference a b = q.unit ∨ reference a b = z.unit := by
  rcases h.order with ⟨rfl, rfl⟩ | ⟨rfl, rfl⟩
  · exact (reference_eq_or _ _).symm
  · exact reference_eq_or _ _

/-- The order of the operands does not matter but for the reference. -/
theorem add_eq (h : ZeroSum a b q z m μ ρ) (href : reference a b = ref) :
    a.add b = ofAligned q.dim ref (aligned ref z + aligned ref q) := by
  rcases h.order with ⟨rfl, rfl⟩ | ⟨rfl, rfl⟩
  · rw [add, if_pos h.dim, href, h.dim]
  · rw [add, if_pos h.dim.symm, href, float_add_comm]

/-- **In the scale of the other operand a zero is neutral.** -/
theorem add_of_reference (h : ZeroSum a b q z m μ ρ) (href : reference a b = q.unit)
    (hv : toRat? q.value = some v) : ∃ s, a.add b = .ok s ∧ s.same q = true := by
  obtain ⟨hone, hten⟩ := h.normal.digit.resolve_left h.ne_zero
  obtain ⟨t, ht⟩ := h.normal.multiplier.exists_ratio h.multiplier
  rw [h.add_eq href]
  generalize hnum : aligned q.unit z + aligned q.unit q = num
  have hvalue : toRat? num = some m := by
    rw [← hnum, toRat?_add_eq (aligned_zero h.zero ht) h.normal.aligned_self, zero_add,
      finite_nearestDouble h.normal.mantissa]
  have hplaces : ilog10 num = 0 :=
    ilog10_eq hvalue (by simpa using hone) (by simpa using hten) (by decide) (by decide)
  obtain ⟨carry, -, hcarry, heq⟩ := ofAligned_eq q.dim q.unit hvalue
  obtain rfl : carry = 0 := hcarry.elim id fun hcarry ↦ hcarry.2.trans hplaces
  rw [neg_zero, scale10_zero, add_zero] at heq
  have hshifted : Shifted ⟨num, q.unit⟩ m μ :=
    ⟨hvalue, h.normal.multiplier.value, hone, hten.le, h.normal.multiplier.one_le,
      h.normal.multiplier.lt_ten.le⟩
  exact ⟨⟨num, q.unit⟩, heq.trans (hshifted.normalize_eq_self hten h.normal.multiplier.lt_ten),
    h.normal.same_of_mantissa h.ne_zero hvalue hv⟩

/-- The mantissa of the other operand in the scale of the zero. -/
theorem add_eq_of_zero (h : ZeroSum a b q z m μ ρ) (href : reference a b = z.unit) {c : Rat}
    (hc : toRat? (aligned z.unit q) = some c) :
    ∃ num, a.add b = ofAligned q.dim z.unit num ∧ toRat? num = some c := by
  refine ⟨_, h.add_eq href, ?_⟩
  rw [toRat?_add_eq (aligned_zero_self h.zero) hc, zero_add, finite_nearestDouble hc]

/-- **In its own scale a zero is neutral** as long as nothing leaves the range. -/
theorem add_of_staysInside (h : ZeroSum a b q z m μ ρ) (href : reference a b = z.unit)
    (hinside : StaysInside q z m μ ρ) : ∃ s, a.add b = .ok s ∧ s.same q = true := by
  have hself : Inner |m| ∧ Inner |m * μ| := h.normal.inner h.ne_zero
  have hmantissa := Approx.of_toRat? h.normal.mantissa h.ne_zero
  have hfactor := Approx.of_toRat? h.normal.multiplier.value h.normal.multiplier.pos.ne'
  have hratio := hfactor.div (.of_toRat? h.multiplier h.multiplier_ne_zero) (by decide)
    hinside.ratio
  have haligned : Approx 35 (aligned z.unit q) _ :=
    (hmantissa.scale10 (by decide) hself.1 hinside.shifted).mul hratio (by decide) hinside.aligned
  obtain ⟨c, hc, hsign, hwithin⟩ := id haligned
  obtain ⟨num, hadd, hnum⟩ := h.add_eq_of_zero href hc
  have hscale : m * 10 ^ (q.unit.decExp - z.unit.decExp) * (μ / ρ) * ρ * 10 ^ z.unit.decExp =
      m * μ * 10 ^ q.unit.decExp := by
    have hne := h.multiplier_ne_zero
    rw [zpow_sub₀ (by norm_num)]
    field_simp
  obtain ⟨s, hs, hdim, hvalue⟩ := ofAligned_value q.dim ⟨c, hnum, hsign, hwithin⟩ (by decide)
    hinside.aligned h.multiplier hinside.multiplier (hscale.symm ▸ hinside.value)
  rw [hscale] at hvalue
  have hvalue' : Approx 34 q.value (m * μ * 10 ^ q.unit.decExp) :=
    (hmantissa.mul hfactor (by decide) hself.2).scale10 (by decide) hself.2 hinside.value
  have hclose : Scalar.close s.value q.value = true :=
    hvalue.close (hvalue'.mono (by decide)) (by decide) hinside.value
  exact ⟨s, hadd.trans hs, by simp [same, hdim, hclose]⟩

/-- **A zero far below refuses what it is added to.** -/
theorem add_not_finite (h : ZeroSum a b q z m μ ρ) (href : reference a b = z.unit)
    (hfar : 309 ≤ q.unit.decExp - z.unit.decExp) :
    ∃ text, a.add b = .error (.calc (.notFinite text)) := by
  rw [h.add_eq href, float_add_comm]
  exact ⟨_, ofAligned_not_finite _ _
    (toRat?_add_eq_none (h.normal.aligned_not_finite h.ne_zero hfar))⟩

/-- **A zero far above swallows what it is added to.** -/
theorem add_vanishes (h : ZeroSum a b q z m μ ρ) (href : reference a b = z.unit)
    (hfar : q.unit.decExp - z.unit.decExp ≤ -345) (hratio : Inner |μ / ρ|) :
    ∃ s, a.add b = .ok s ∧ toRat? s.mantissa = some 0 ∧
      ∀ v, toRat? q.value = some v → v ≠ 0 → s.same q = false := by
  obtain ⟨t, ht, -, -⟩ := (Approx.of_toRat? h.normal.multiplier.value
    h.normal.multiplier.pos.ne').div (.of_toRat? h.multiplier h.multiplier_ne_zero) (by decide)
    hratio
  have hlost := toRat?_scale10_of_small h.normal.mantissa h.normal.abs_mantissa_le hfar
  have haligned : toRat? (aligned z.unit q) = some 0 := toRat?_zero_mul hlost ht
  obtain ⟨num, hadd, hnum⟩ := h.add_eq_of_zero href haligned
  obtain ⟨carry, -, hcarry, heq⟩ := ofAligned_eq q.dim z.unit hnum
  obtain rfl : carry = 0 := hcarry.resolve_right fun hcarry ↦ hcarry.1 rfl
  rw [neg_zero, scale10_zero, add_zero, normalize, if_pos ((isZero_iff hnum).mpr rfl)] at heq
  refine ⟨_, hadd.trans heq, hnum, fun v hv hne ↦ ?_⟩
  have hclose : Scalar.close (value ⟨num, ⟨q.dim, z.unit.decExp, z.unit.multiplier,
      z.unit.isFactor⟩⟩) q.value = false :=
    close_zero (value_zero hnum) hv hne
  simp [same, hclose]

/-- **Where zero is neutral.**  In the scale of the other operand always; in its own scale as long
as every number on the way stays well inside the range.  A zero of an exponent `309` places below
makes the sum fail, and one of an exponent `345` places above makes it zero. -/
theorem neutral (h : ZeroSum a b q z m μ ρ) (hv : toRat? q.value = some v) (hne : v ≠ 0) :
    (reference a b = q.unit ∨ StaysInside q z m μ ρ → ∃ s, a.add b = .ok s ∧ s.same q = true) ∧
    (reference a b = z.unit → 309 ≤ q.unit.decExp - z.unit.decExp →
      ∃ text, a.add b = .error (.calc (.notFinite text))) ∧
    (reference a b = z.unit → q.unit.decExp - z.unit.decExp ≤ -345 → Inner |μ / ρ| →
      ∃ s, a.add b = .ok s ∧ toRat? s.mantissa = some 0 ∧ s.same q = false) := by
  refine ⟨fun hcase ↦ ?_, h.add_not_finite, fun href hfar hratio ↦ ?_⟩
  · rcases h.reference_eq with href | href
    · exact h.add_of_reference href hv
    · rcases hcase with href' | hinside
      · exact h.add_of_reference href' hv
      · exact h.add_of_staysInside href hinside
  · obtain ⟨s, hs, hzero, hsame⟩ := h.add_vanishes href hfar hratio
    exact ⟨s, hs, hzero, hsame v hv hne⟩

end ZeroSum

/-- A zero with a scale. -/
def zeroAt (e : Int) : Quantity Float :=
  ⟨Scalar.ofNat 0, .decimal 1 e⟩

theorem zeroSum_left (e f : Int) :
    ZeroSum (zeroAt e) (powerOfTen f) (powerOfTen f) (zeroAt e) 1 1 1 :=
  ⟨normalized_powerOfTen f, one_ne_zero, toRat?_ofNat_zero, toRat?_ofNat_one, rfl,
    .inl ⟨rfl, rfl⟩⟩

theorem zeroSum_right (e f : Int) :
    ZeroSum (powerOfTen f) (zeroAt e) (powerOfTen f) (zeroAt e) 1 1 1 :=
  ⟨normalized_powerOfTen f, one_ne_zero, toRat?_ofNat_zero, toRat?_ofNat_one, rfl,
    .inr ⟨rfl, rfl⟩⟩

theorem value_one : toRat? (powerOfTen 0).value = some 1 := by
  decide +kernel

/-- `0 · 10 ^ 3` and one make one, in either order. -/
theorem ZeroSum.neutral_one :
    (∃ s, (zeroAt 3).add (powerOfTen 0) = .ok s ∧ s.same (powerOfTen 0) = true) ∧
    ∃ s, (powerOfTen 0).add (zeroAt 3) = .ok s ∧ s.same (powerOfTen 0) = true := by
  have hinside : StaysInside (powerOfTen 0) (zeroAt 3) 1 1 1 := by
    refine .of_normal (normalized_powerOfTen 0) one_ne_zero (normalized_powerOfTen 3).multiplier
      (by decide) ?_
    rw [one_mul, one_mul, show (powerOfTen 0).unit.decExp = 0 from rfl, zpow_zero, abs_one]
    exact .of_zpow (e := 0) (f := 0) (by simp) (by simp) (by decide) (by decide)
  exact ⟨((zeroSum_left 3 0).neutral value_one one_ne_zero).1 (.inr hinside),
    ((zeroSum_right 3 0).neutral value_one one_ne_zero).1 (.inr hinside)⟩

/-- **A zero may swallow what it is added to, or refuse it**: `0 · 10 ^ 400` and one make zero, and
`0 · 10 ^ -400` and one cannot be added. -/
theorem exists_zero_not_neutral :
    Normalized (powerOfTen 0) 1 1 ∧ toRat? (powerOfTen 0).value = some 1 ∧
    (∀ e, toRat? (zeroAt e).mantissa = some 0 ∧ (zeroAt e).dim = (powerOfTen 0).dim) ∧
    (∃ s, (zeroAt 400).add (powerOfTen 0) = .ok s ∧ s.same (powerOfTen 0) = false) ∧
    (∃ s, (powerOfTen 0).add (zeroAt 400) = .ok s ∧ s.same (powerOfTen 0) = false) ∧
    (∃ text, (zeroAt (-400)).add (powerOfTen 0) = .error (.calc (.notFinite text))) ∧
    ∃ text, (powerOfTen 0).add (zeroAt (-400)) = .error (.calc (.notFinite text)) := by
  have hratio : Inner |(1 / 1 : Rat)| := by
    rw [div_one, abs_one]
    exact .of_zpow (e := 0) (f := 0) (by simp) (by simp) (by decide) (by decide)
  obtain ⟨s, hs, -, hsame⟩ := (zeroSum_left 400 0).add_vanishes rfl (by decide) hratio
  obtain ⟨t, ht, -, hsame'⟩ := (zeroSum_right 400 0).add_vanishes rfl (by decide) hratio
  exact ⟨normalized_powerOfTen 0, value_one, fun e ↦ ⟨toRat?_ofNat_zero, rfl⟩,
    ⟨s, hs, hsame 1 value_one one_ne_zero⟩, ⟨t, ht, hsame' 1 value_one one_ne_zero⟩,
    (zeroSum_left (-400) 0).add_not_finite rfl (by decide),
    (zeroSum_right (-400) 0).add_not_finite rfl (by decide)⟩

end Quantity
end Mensura
