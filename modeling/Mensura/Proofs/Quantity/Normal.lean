import Mensura.Proofs.Binary64.FirstDigit
import Mensura.Proofs.Quantity.Exponent

/-!
# What normalizing leaves

Normalizing shifts the mantissa and the multiplier of a quantity by their decimal exponents.  It
succeeds on every finite mantissa, and leaves sizes from one to ten (`normalize_digits`).  Where
neither of the two is ten, normalizing again changes nothing; a double that `Slips` is left at ten,
and is shifted once more.  The value stays what it was, up to the roundings (`normalize_value`).
-/

set_option autoImplicit false

namespace Mensura

/-! ## What is not zero, and what is not shifted -/

namespace Binary64

variable {x : Float}

theorem isZero_of_not_finite (hx : toRat? x = none) : Scalar.isZero x = false :=
  beq_of_not_finite hx toRat?_ofNat_zero

theorem scale10_zero (x : Float) : Scalar.scale10 x 0 = x :=
  scale10_zero_places x

end Binary64

namespace Quantity

open Binary64

/-- A multiplier as normalizing leaves it, of value `μ`. -/
structure NormalFactor (x : Float) (μ : Rat) : Prop where
  value : toRat? x = some μ
  one_le : 1 ≤ μ
  lt_ten : μ < 10

/-- A quantity as normalizing leaves it, of mantissa `m` and multiplier `μ`. -/
structure Normalized (q : Quantity Float) (m μ : Rat) : Prop where
  mantissa : toRat? q.mantissa = some m
  multiplier : NormalFactor q.unit.multiplier μ
  digit : m = 0 ∨ 1 ≤ |m| ∧ |m| < 10

variable {q : Quantity Float} {ref : PhysUnit Float} {x : Float} {v ρ m μ r : Rat} {k : Nat}

/-! ## Multipliers below ten -/

theorem ofParts_eq (dim : Dimension) (e : Int) (ref : PhysUnit Float) :
    PhysUnit.ofParts dim e ref.multiplier = .ok ⟨dim, e, ref.multiplier, ref.isFactor⟩ :=
  dif_pos ref.isFactor

theorem NormalFactor.pos (h : NormalFactor x ρ) : 0 < ρ :=
  zero_lt_one.trans_le h.one_le

theorem NormalFactor.inner (h : NormalFactor x ρ) : Inner |ρ| := by
  rw [abs_of_pos h.pos]
  exact .of_zpow (e := 0) (f := 1) (by simpa using h.one_le) (by simpa using h.lt_ten.le)
    (by decide) (by decide)

theorem NormalFactor.ilog10_eq_zero (h : NormalFactor x ρ) : Scalar.ilog10 x = 0 := by
  obtain ⟨hvalue, hone, hten⟩ := h
  refine ilog10_eq hvalue ?_ ?_ (by decide) (by decide)
  · rwa [zpow_zero, abs_of_pos (by linarith)]
  · rwa [zero_add, zpow_one, abs_of_pos (by linarith)]

/-- A finite mantissa is shifted, a multiplier between one and ten is not. -/
theorem normalize_eq (hunit : NormalFactor q.unit.multiplier ρ) (hx : toRat? q.mantissa = some v)
    (hv : v ≠ 0) :
    q.normalize = .ok ⟨Scalar.scale10 q.mantissa (-Scalar.ilog10 q.mantissa),
      { q.unit with decExp := q.unit.decExp + Scalar.ilog10 q.mantissa }⟩ := by
  have hfinite : Scalar.isFinite q.mantissa = true := isFinite_of_toRat? hx
  have hnegative : Scalar.lt q.unit.multiplier (Scalar.ofNat 0) = false := by
    change decide (q.unit.multiplier < Scalar.ofNat 0) = false
    rw [decide_eq_false_iff_not, lt_iff hunit.value toRat?_ofNat_zero]
    linarith [hunit.one_le]
  simp only [normalize, isZero_eq_false hx hv, hfinite, hnegative, Bool.not_true,
    Bool.false_eq_true, if_false, hunit.ilog10_eq_zero, ite_self, neg_zero, scale10_zero, add_zero]
  rw [ofParts_eq]
  rfl

theorem isNumber_value (hunit : NormalFactor q.unit.multiplier ρ) (hx : IsNumber q.mantissa) :
    IsNumber q.value := by
  obtain ⟨σ, hsign⟩ := isNumber_iff.mp hx
  exact isNumber_iff.mpr ⟨σ, (hsign.mul hunit.value hunit.pos).scale10 _⟩

/-- A finite mantissa gives a quantity, the value of which is a number. -/
theorem exists_normalize (hunit : NormalFactor q.unit.multiplier ρ)
    (hx : toRat? q.mantissa = some v) : ∃ s, q.normalize = .ok s ∧ IsNumber s.value := by
  have hnumber := isNumber_of_toRat? hx
  rcases eq_or_ne v 0 with rfl | hv
  · exact ⟨q, if_pos ((isZero_iff hx).mpr rfl), isNumber_value hunit hnumber⟩
  · exact ⟨_, normalize_eq hunit hx hv, isNumber_value (ρ := ρ) hunit (hnumber.scale10 _)⟩

/-- What is not finite is refused. -/
theorem normalize_not_finite (hx : toRat? q.mantissa = none) :
    q.normalize = .error (.calc (.notFinite (Scalar.text q.mantissa))) := by
  rw [normalize, isZero_of_not_finite hx, isFinite_eq_false hx]
  rfl

/-! ## All multipliers -/

theorem exists_multiplier (u : PhysUnit Float) : ∃ ρ, toRat? u.multiplier = some ρ ∧ ρ ≠ 0 := by
  have hfactor := u.isFactor
  rw [Scalar.isFactor, Bool.and_eq_true, Bool.not_eq_true'] at hfactor
  obtain ⟨ρ, hρ⟩ := isFinite_iff.mp hfactor.1
  refine ⟨ρ, hρ, fun hzero ↦ ?_⟩
  rw [(isZero_iff hρ).mpr hzero] at hfactor
  exact absurd hfactor.2 (by decide)

/-- How far normalizing shifts a multiplier. -/
def factorShift (x : Float) : Int :=
  if Scalar.isOne x then 0 else Scalar.ilog10 x

/-- The multiplier that normalizing leaves. -/
def shiftedFactor (x : Float) : Float :=
  if Scalar.isOne x then x else Scalar.scale10 x (-factorShift x)

theorem exists_shiftedFactor (hx : toRat? x = some ρ) (hρ : 0 < ρ) :
    ∃ μ, toRat? (shiftedFactor x) = some μ ∧ 1 ≤ μ ∧ μ ≤ 10 ∧ (μ = 10 ↔ Slips x) := by
  rw [shiftedFactor, factorShift]
  split
  · next hone =>
    have hone : Scalar.isOne x = true := hone
    obtain rfl : ρ = 1 := (beq_iff hx toRat?_ofNat_one).mp hone
    have hclear : Clear 1 := .inl (by norm_num)
    exact ⟨1, hx, le_rfl, by norm_num, iff_of_false (by norm_num) (hclear.not_slips hx hρ.ne')⟩
  · obtain ⟨μ, hμ, hsign, hone, hten, hslips⟩ := exists_first_digit hx hρ.ne'
    rw [abs_of_pos (pos_of_mul_pos_left hsign hρ.le)] at hone hten hslips
    exact ⟨μ, hμ, hone, hten, hslips⟩

/-- The mantissa and the multiplier, with the sign of the multiplier moved to the mantissa. -/
def signMoved (q : Quantity Float) : Float × Float :=
  if Scalar.lt q.unit.multiplier (Scalar.ofNat 0) then (-q.mantissa, -q.unit.multiplier)
  else (q.mantissa, q.unit.multiplier)

theorem signMoved_eq (hunit : toRat? q.unit.multiplier = some ρ) :
    signMoved q = if ρ < 0 then (-q.mantissa, -q.unit.multiplier)
      else (q.mantissa, q.unit.multiplier) := by
  have hnegative : Scalar.lt q.unit.multiplier (Scalar.ofNat 0) = decide (ρ < 0) := by
    change decide (q.unit.multiplier < Scalar.ofNat 0) = decide (ρ < 0)
    rw [decide_eq_decide, lt_iff hunit toRat?_ofNat_zero]
  rw [signMoved, hnegative]
  simp only [decide_eq_true_eq]

theorem exists_signMoved (hx : toRat? q.mantissa = some v)
    (hunit : toRat? q.unit.multiplier = some ρ) :
    ∃ w, toRat? (signMoved q).1 = some w ∧ |w| = |v| ∧ toRat? (signMoved q).2 = some |ρ| := by
  rw [signMoved_eq hunit]
  split
  · next hρ =>
    rw [abs_of_neg hρ]
    exact ⟨-v, toRat?_neg hx, abs_neg v, toRat?_neg hunit⟩
  · next hρ =>
    rw [abs_of_nonneg (not_lt.mp hρ)]
    exact ⟨v, hx, rfl, hunit⟩

/-- Both parts are shifted by their decimal exponents, which go into that of the unit. -/
theorem normalize_eq_shifted (hx : toRat? q.mantissa = some v) (hv : v ≠ 0) :
    q.normalize = do
      let unit ← PhysUnit.ofParts q.dim (q.unit.decExp + factorShift (signMoved q).2 +
        Scalar.ilog10 (signMoved q).1) (shiftedFactor (signMoved q).2)
      return ⟨Scalar.scale10 (signMoved q).1 (-Scalar.ilog10 (signMoved q).1), unit⟩ := by
  have hfinite : Scalar.isFinite q.mantissa = true := isFinite_of_toRat? hx
  rw [normalize, if_neg (by simp [isZero_eq_false hx hv]), if_neg (by simp [hfinite])]
  simp only [shiftedFactor, factorShift, signMoved]
  split <;> rfl

theorem approx_signMoved (hx : Approx k q.mantissa r) (hunit : toRat? q.unit.multiplier = some ρ) :
    ∃ w, Approx k (signMoved q).1 w ∧ |w| = |r| ∧ w * |ρ| = r * ρ ∧
      toRat? (signMoved q).2 = some |ρ| := by
  rw [signMoved_eq hunit]
  split
  · next hρ =>
    rw [abs_of_neg hρ]
    exact ⟨-r, hx.neg, abs_neg r, neg_mul_neg r ρ, toRat?_neg hunit⟩
  · next hρ =>
    rw [abs_of_nonneg (not_lt.mp hρ)]
    exact ⟨r, hx, rfl, rfl, hunit⟩

theorem approx_shiftedFactor (hx : toRat? x = some ρ) (hρ : Inner |ρ|) :
    Approx 33 (shiftedFactor x) (ρ * 10 ^ (-factorShift x)) ∧
      10 ^ (-3 : Int) ≤ |ρ * 10 ^ (-factorShift x)| ∧
      |ρ * 10 ^ (-factorShift x)| ≤ 10 ^ (3 : Int) := by
  have hfactor := Approx.of_toRat? hx (abs_pos.mp hρ.pos)
  rw [shiftedFactor, factorShift]
  split
  · next hone =>
    have hone : Scalar.isOne x = true := hone
    obtain rfl : ρ = 1 := (beq_iff hx toRat?_ofNat_one).mp hone
    rw [neg_zero, zpow_zero, mul_one, abs_one]
    exact ⟨hfactor.mono (by decide), by norm_num, by norm_num⟩
  · exact hfactor.digits (by decide) hρ

/-- **Normalizing keeps the value**, up to a hundred roundings. -/
theorem normalize_value (hx : Approx k q.mantissa r) (hk : k ≤ 200) (hr : Inner |r|)
    (hunit : toRat? q.unit.multiplier = some ρ) (hρ : Inner |ρ|)
    (hvalue : Inner |r * ρ * 10 ^ q.unit.decExp|) :
    ∃ s, q.normalize = .ok s ∧ s.dim = q.dim ∧
      Approx (k + 100) s.value (r * ρ * 10 ^ q.unit.decExp) := by
  obtain ⟨v, hv, hsign, -⟩ := id hx
  obtain ⟨w, hw, hsize, hproduct, hfactor⟩ := approx_signMoved hx hunit
  obtain ⟨hmantissa, hlow, hhigh⟩ := hw.digits (by omega) (hsize ▸ hr)
  obtain ⟨hshifted, hlow', hhigh'⟩ := approx_shiftedFactor hfactor (by rwa [abs_abs])
  obtain ⟨μ, hμ, hsign', -⟩ := id hshifted
  rw [normalize_eq_shifted hv (left_ne_zero_of_mul hsign.ne'), PhysUnit.ofParts,
    dif_pos (isFactor_of_ne_zero hμ (left_ne_zero_of_mul hsign'.ne'))]
  refine ⟨_, rfl, rfl, ?_⟩
  have hscale : w * 10 ^ (-ilog10 (signMoved q).1) * (|ρ| * 10 ^ (-factorShift (signMoved q).2)) *
      10 ^ (q.unit.decExp + factorShift (signMoved q).2 + ilog10 (signMoved q).1) =
        r * ρ * 10 ^ q.unit.decExp := by
    rw [← hproduct, zpow_add₀ (by norm_num), zpow_add₀ (by norm_num), zpow_neg, zpow_neg]
    field_simp
  have hexact := hmantissa.mul_scale10 hshifted (by omega) hlow hhigh hlow' hhigh'
    (by rwa [hscale])
  rw [hscale] at hexact
  exact hexact.mono (by omega)

/-! ## Normalizing again -/

/-- A quantity with a mantissa and a multiplier of sizes from one to ten. -/
structure Shifted (q : Quantity Float) (m μ : Rat) : Prop where
  mantissa : toRat? q.mantissa = some m
  multiplier : toRat? q.unit.multiplier = some μ
  one_le_mantissa : 1 ≤ |m|
  mantissa_le_ten : |m| ≤ 10
  one_le_multiplier : 1 ≤ μ
  multiplier_le_ten : μ ≤ 10

/-- Normalizing succeeds on finite mantissas. -/
theorem exists_shifted (hx : toRat? q.mantissa = some v) (hv : v ≠ 0)
    (hunit : toRat? q.unit.multiplier = some ρ) (hρ : ρ ≠ 0) :
    ∃ n m μ, q.normalize = .ok n ∧ Shifted n m μ ∧ (|m| = 10 ↔ Slips q.mantissa) ∧
      (μ = 10 ↔ Slips q.unit.multiplier) := by
  obtain ⟨w, hw, hwv, hfactor⟩ := exists_signMoved hx hunit
  have hw0 : w ≠ 0 := abs_ne_zero.mp (hwv ▸ abs_ne_zero.mpr hv)
  obtain ⟨m, hm, -, hone, hten, hslips⟩ := exists_first_digit hw hw0
  obtain ⟨μ, hμ, hone', hten', hslips'⟩ := exists_shiftedFactor hfactor (abs_pos.mpr hρ)
  rw [slips_congr hw hx hw0 hwv] at hslips
  rw [slips_congr hfactor hunit (abs_ne_zero.mpr hρ) (abs_abs ρ)] at hslips'
  rw [normalize_eq_shifted hx hv, PhysUnit.ofParts,
    dif_pos (isFactor_of_ne_zero hμ (zero_lt_one.trans_le hone').ne')]
  exact ⟨_, m, μ, rfl, ⟨hm, hμ, hone, hten, hone', hten'⟩, hslips, hslips'⟩

/-- What lies below ten is not shifted again. -/
theorem Shifted.normalize_eq_self (h : Shifted q m μ) (hm : |m| < 10) (hμ : μ < 10) :
    q.normalize = .ok q := by
  have hne : m ≠ 0 := abs_pos.mp (zero_lt_one.trans_le h.one_le_mantissa)
  have hplaces : Scalar.ilog10 q.mantissa = 0 :=
    ilog10_eq h.mantissa (by simpa using h.one_le_mantissa) (by simpa using hm) (by decide)
      (by decide)
  rw [normalize_eq ⟨h.multiplier, h.one_le_multiplier, hμ⟩ h.mantissa hne, hplaces, neg_zero,
    scale10_zero, add_zero]

/-- **Normalizing leaves a mantissa and a multiplier of sizes from one to ten.**  Both are below
ten, and normalizing again changes nothing, exactly if neither of them slips; which is so if both
are clear of the powers of ten below a tenth. -/
theorem normalize_digits (hx : toRat? q.mantissa = some v) (hv : v ≠ 0) :
    ∃ n m μ ρ, q.normalize = .ok n ∧ Shifted n m μ ∧ toRat? q.unit.multiplier = some ρ ∧
      (|m| < 10 ∧ μ < 10 ∧ n.normalize = .ok n ↔
        ¬Slips q.mantissa ∧ ¬Slips q.unit.multiplier) ∧
      (Clear v → Clear ρ → |m| < 10 ∧ μ < 10 ∧ n.normalize = .ok n) := by
  obtain ⟨ρ, hunit, hρ⟩ := exists_multiplier q.unit
  obtain ⟨n, m, μ, hn, hshifted, hslips, hslips'⟩ := exists_shifted hx hv hunit hρ
  have hiff : |m| < 10 ∧ μ < 10 ∧ n.normalize = .ok n ↔
      ¬Slips q.mantissa ∧ ¬Slips q.unit.multiplier := by
    rw [← hslips, ← hslips', ← ne_eq, ← ne_eq, ← hshifted.mantissa_le_ten.lt_iff_ne,
      ← hshifted.multiplier_le_ten.lt_iff_ne]
    exact ⟨fun ⟨hm, hμ, _⟩ ↦ ⟨hm, hμ⟩,
      fun ⟨hm, hμ⟩ ↦ ⟨hm, hμ, hshifted.normalize_eq_self hm hμ⟩⟩
  exact ⟨n, m, μ, ρ, hn, hshifted, hunit, hiff, fun hclear hclear' ↦
    hiff.mpr ⟨hclear.not_slips hx hv, hclear'.not_slips hunit hρ⟩⟩

/-- Twelve hundred and fifty, in units of minus an hour. -/
def hoursBack : Quantity Float :=
  ⟨Scalar.ofNat 1250, .base .time, 0, -(Scalar.ofNat 3600), by decide +kernel⟩

/-- The sign of the unit goes to the mantissa: minus one and a quarter, in units of three and six
tenths. -/
theorem normalize_digits_hoursBack :
    toRat? hoursBack.mantissa = some 1250 ∧ (1250 : Rat) ≠ 0 ∧ ¬Slips hoursBack.mantissa ∧
      ¬Slips hoursBack.unit.multiplier ∧
      ∃ n m μ, hoursBack.normalize = .ok n ∧ Shifted n m μ ∧ |m| < 10 ∧ μ < 10 ∧
        n.normalize = .ok n := by
  have hvalue : toRat? hoursBack.mantissa = some 1250 := by decide +kernel
  have hslips : ¬Slips hoursBack.mantissa ∧ ¬Slips hoursBack.unit.multiplier := by decide +kernel
  obtain ⟨n, m, μ, ρ, hn, hshifted, -, hiff, -⟩ := normalize_digits hvalue (by norm_num)
  obtain ⟨hm, hμ, hagain⟩ := hiff.mpr hslips
  exact ⟨hvalue, by norm_num, hslips.1, hslips.2, n, m, μ, hn, hshifted, hm, hμ, hagain⟩

/-- Ten parts in a million million. -/
def tenTrillionths : Quantity Float :=
  ofScalar (Scalar.ofDecimal 1 (-11))

/-- **Normalizing may leave ten**, and then it shifts the mantissa once more. -/
theorem exists_slip : ∃ n n', tenTrillionths.normalize = .ok n ∧ n.normalize = .ok n' ∧
    toRat? n.mantissa = some 10 ∧ n.unit.decExp = -12 ∧
    toRat? n'.mantissa = some 1 ∧ n'.unit.decExp = -11 := by
  have hparts {r : Result (Quantity Float)} {p : Option Rat × Int}
      (h : (r.map fun n ↦ (toRat? n.mantissa, n.unit.decExp)) = .ok p) :
      ∃ n, r = .ok n ∧ toRat? n.mantissa = p.1 ∧ n.unit.decExp = p.2 := by
    cases r with
    | error e => cases h
    | ok n =>
      have h := Except.ok.inj h
      exact ⟨n, rfl, congrArg Prod.fst h, congrArg Prod.snd h⟩
  obtain ⟨n, hn, hm, he⟩ := hparts (p := (some 10, -12)) (r := tenTrillionths.normalize)
    (by decide +kernel)
  obtain ⟨n', hn', hm', he'⟩ := hparts (p := (some 1, -11))
    (r := tenTrillionths.normalize >>= normalize) (by decide +kernel)
  rw [hn, ok_bind] at hn'
  exact ⟨n, n', hn, hn', hm, he, hm', he'⟩

end Quantity
end Mensura
