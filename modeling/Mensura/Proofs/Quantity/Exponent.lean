import Mensura.Proofs.Binary64.Rebuilt
import Mensura.Proofs.Outcome
import Mensura.Proofs.Scalar.Exact
import Mensura.Quantity
import Mensura.Scalar.Binary64

/-!
# Exponents that are whole numbers or fractions

What a power does with an exponent that is written as a whole number or as a fraction of two.
`Plain` follows a number without unit through the operations by the mantissa and the exponent it is
held with; `Plain.value_whole` and `Plain.value_fraction` say that an exponent is `rebuiltWhole` or
`rebuiltFraction` when the power looks at it.  From there on `powInt_dim` and `powFrac_dim` say that
a result has exactly the power of the dimension.
-/

set_option autoImplicit false

namespace Mensura

/-! ## Comparisons with constants -/

namespace Binary64

variable {x : Float} {a : Rat}

theorem toRat?_ofNat_zero : toRat? (Scalar.ofNat 0) = some 0 := by
  decide +kernel

theorem toRat?_ofNat_one : toRat? (Scalar.ofNat 1) = some 1 := by
  decide +kernel

theorem isZero_iff (hx : toRat? x = some a) : Scalar.isZero x = true ↔ a = 0 :=
  beq_iff hx toRat?_ofNat_zero

theorem isZero_eq_false (hx : toRat? x = some a) (ha : a ≠ 0) : Scalar.isZero x = false := by
  rw [Bool.eq_false_iff, ne_eq, isZero_iff hx]
  exact ha

theorem isOne_iff (hx : toRat? x = some a) : Scalar.isOne x = true ↔ a = 1 :=
  beq_iff hx toRat?_ofNat_one

theorem isFactor_of_ne_zero (hx : toRat? x = some a) (ha : a ≠ 0) : Scalar.isFactor x = true := by
  have hfinite : Scalar.isFinite x = true := isFinite_of_toRat? hx
  rw [Scalar.isFactor, hfinite, isZero_eq_false hx ha]
  rfl

theorem toInt?_eq_some (hx : toRat? x = some a) {n : Int} :
    Scalar.toInt? x = some n ↔ a = n := by
  have hexact : Scalar.toInt? x = Scalar.toInt? a := by
    change toInt? x = _
    rw [toInt?, hx]
    rfl
  rw [hexact, Exact.toInt?_eq_some]

end Binary64

/-! ## Plain numbers -/

namespace Quantity

open Binary64

/-- A number without unit, of mantissa `m` and decimal exponent `e`. -/
structure Plain (q : Quantity Float) (m : Rat) (e : Int) : Prop where
  dim : q.unit.dim = 1
  multiplier : toRat? q.unit.multiplier = some 1
  mantissa : toRat? q.mantissa = some m
  decExp : q.unit.decExp = e

variable {q : Quantity Float} {m : Rat} {e : Int}

/-- Zero stays as it is. -/
theorem Plain.normalize_zero (h : Plain q 0 e) : q.normalize = .ok q := by
  rw [normalize, if_pos ((isZero_iff h.mantissa).mpr rfl)]

/-- The mantissa is brought between one and ten. -/
theorem Plain.normalize {k : Int} (h : Plain q m e) (hlow : 10 ^ k ≤ |m|)
    (hhigh : |m| < 10 ^ (k + 1)) (hk : -1 ≤ k) (hk' : k < 22) :
    ∃ p, q.normalize = .ok p ∧ Plain p (toDouble (m * 10 ^ (-k))) (e + k) := by
  obtain ⟨hdim, hmultiplier, hmantissa, hexp⟩ := h
  have hm : m ≠ 0 := by
    have hpos : 0 < |m| := hlow.trans_lt' (by positivity)
    exact abs_pos.mp hpos
  have hzero : Scalar.isZero q.mantissa = false := isZero_eq_false hmantissa hm
  have hfinite : Scalar.isFinite q.mantissa = true := isFinite_of_toRat? hmantissa
  have hnegative : Scalar.lt q.unit.multiplier (Scalar.ofNat 0) = false := by
    change decide (q.unit.multiplier < Scalar.ofNat 0) = false
    rw [decide_eq_false_iff_not, lt_iff hmultiplier toRat?_ofNat_zero]
    norm_num
  have hone : Scalar.isOne q.unit.multiplier = true := (isOne_iff hmultiplier).mpr rfl
  have hlog : Scalar.ilog10 q.mantissa = k := ilog10_eq hmantissa hlow hhigh hk hk'
  have hfactor := isFactor_of_ne_zero hmultiplier one_ne_zero
  obtain ⟨hshifted, hshifted'⟩ := one_le_abs_shifted hlow hhigh
  have hscale : toRat? (Scalar.scale10 q.mantissa (-k)) = some (toDouble (m * 10 ^ (-k))) :=
    toRat?_scale10 hmantissa (by rw [abs_le]; omega)
      (.inr (Normal.of_bounds (by linarith) (by linarith)))
  refine ⟨⟨Scalar.scale10 q.mantissa (-k), ⟨q.dim, q.unit.decExp + 0 + k, q.unit.multiplier,
    hfactor⟩⟩, ?_, hdim, hmultiplier, hscale, ?_⟩
  · have hunit : PhysUnit.ofParts q.dim (q.unit.decExp + 0 + k) q.unit.multiplier =
        .ok ⟨q.dim, q.unit.decExp + 0 + k, q.unit.multiplier, hfactor⟩ := dif_pos hfactor
    simp only [Quantity.normalize, hzero, hfinite, hnegative, Bool.not_true, Bool.false_eq_true,
      if_false, hone, if_true, hlog, hunit]
    rfl
  · simp only [add_zero, hexp]

/-- A mantissa between one and ten stays as it is. -/
theorem Plain.normalize_self (h : Plain q m e) (hlow : 1 ≤ |m|) (hhigh : |m| < 10) :
    ∃ p, q.normalize = .ok p ∧ Plain p m e := by
  obtain ⟨p, hp, hplain⟩ := h.normalize (k := 0) (by simpa using hlow) (by simpa using hhigh)
    (by decide) (by decide)
  rw [neg_zero, zpow_zero, mul_one, toDouble_of_toRat? h.mantissa, add_zero] at hplain
  exact ⟨p, hp, hplain⟩

/-- The value is multiplied out with one rounding. -/
theorem Plain.value (h : Plain q m e) (he : |e| ≤ 22) (hm : m = 0 ∨ Normal m)
    (hrange : m = 0 ∨ Normal (m * 10 ^ e)) : toRat? q.value = some (toDouble (m * 10 ^ e)) := by
  have hproduct : toRat? (q.mantissa * q.unit.multiplier) = some m := by
    rw [toRat?_mul h.mantissa h.multiplier (by rwa [mul_one]), mul_one,
      toDouble_of_toRat? h.mantissa]
  change toRat? (scale10 (q.mantissa * q.unit.multiplier) q.unit.decExp) = _
  rw [h.decExp]
  exact toRat?_scale10 hproduct he hrange

/-- The quotient of plain numbers before its point is moved: the mantissas are divided. -/
theorem Plain.exists_div {p : Quantity Float} {m' : Rat} {e' : Int} (h : Plain q m e)
    (h' : Plain p m' e') (hm' : m' ≠ 0) (hrange : Normal (m / m')) :
    ∃ r : Quantity Float, q.div p = r.normalize ∧ Plain r (toDouble (m / m')) (e - e') := by
  have hmultiplier : toRat? (q.unit.multiplier / p.unit.multiplier) = some 1 := by
    have hone : toDouble 1 = 1 := by simpa using toDouble_ten_pow (k := 0) (by norm_num)
    rw [toRat?_div h.multiplier h'.multiplier one_ne_zero
      (.inr (Normal.of_bounds (by norm_num) (by norm_num))), div_one, hone]
  have hfactor := isFactor_of_ne_zero hmultiplier one_ne_zero
  have hunit : q.unit.div p.unit = .ok ⟨q.unit.dim / p.unit.dim, q.unit.decExp - p.unit.decExp,
      q.unit.multiplier / p.unit.multiplier, hfactor⟩ := dif_pos hfactor
  have hzero : Scalar.isZero p.mantissa = false := isZero_eq_false h'.mantissa hm'
  refine ⟨⟨q.mantissa / p.mantissa, ⟨q.unit.dim / p.unit.dim, q.unit.decExp - p.unit.decExp,
    q.unit.multiplier / p.unit.multiplier, hfactor⟩⟩, ?_, ?_, hmultiplier,
    toRat?_div h.mantissa h'.mantissa hm' (.inr hrange), ?_⟩
  · rw [Quantity.div, hzero, if_neg Bool.false_ne_true, hunit, ok_bind]
  · change q.unit.dim / p.unit.dim = 1
    rw [h.dim, h'.dim]
    ext x
    simp
  · change q.unit.decExp - p.unit.decExp = e - e'
    rw [h.decExp, h'.decExp]

/-- The mantissas of a quotient are divided, and the point is moved if the quotient is below one. -/
theorem Plain.div {p : Quantity Float} {m' : Rat} {e' : Int} (h : Plain q m e)
    (h' : Plain p m' e') (hlow : 1 ≤ |m|) (hhigh : |m| < 10) (hlow' : 1 ≤ m')
    (hhigh' : m' ≤ 9.995) :
    ∃ r l k, q.div p = .ok r ∧ Plain r l k ∧ 1 ≤ |l| ∧ |l| < 10 ∧
      (l, k) = if |toDouble (m / m')| < 1 then (toDouble (toDouble (m / m') * 10), e - e' - 1)
        else (toDouble (m / m'), e - e') := by
  have hm' : (0 : Rat) < m' := by linarith
  have habs : |m / m'| = |m| / m' := by rw [abs_div, abs_of_pos hm']
  have hless : |toDouble (m / m')| < 10 := by
    have hten : toDouble 10 = 10 := by simpa using toDouble_ten_pow (k := 1) (by norm_num)
    have hbelow := toDouble_mul_lt (by linarith) hhigh (toDouble_of_toRat? (toRat?_abs h.mantissa))
      hten (inv_pos.mpr hm')
    rw [abs_toDouble, habs, div_eq_mul_inv]
    refine hbelow.trans_le ?_
    rw [← div_eq_mul_inv, div_le_iff₀ hm']
    linarith
  have hmore : 1 / 10 ≤ |toDouble (m / m')| := by
    have hpos : 0 < |m| / m' := div_pos (by linarith) hm'
    have herror := (abs_le.mp (abs_toDouble_sub_le_of_pos hpos)).1
    have hquotient : 1 / 9.995 ≤ |m| / m' := by
      rw [div_le_div_iff₀ (by norm_num) hm']
      linarith
    rw [abs_toDouble, habs]
    norm_num at herror hquotient ⊢
    linarith
  have hrange : Normal (m / m') := by
    refine Normal.of_bounds ?_ ?_
    · rw [habs, div_le_div_iff₀ (by norm_num) hm']
      linarith
    · rw [habs, div_le_iff₀ hm']
      linarith
  obtain ⟨r, hdiv, hquotient⟩ := h.exists_div h' hm'.ne' hrange
  rcases lt_or_ge |toDouble (m / m')| 1 with hsmall | hlarge
  · have hlow'' : (10 : Rat) ^ (-1 : Int) ≤ |toDouble (m / m')| := by norm_num; linarith
    have hhigh'' : |toDouble (m / m')| < 10 ^ (-1 + 1 : Int) := by simpa using hsmall
    obtain ⟨s, hs, hplain⟩ := hquotient.normalize hlow'' hhigh'' (by decide) (by decide)
    obtain ⟨hone, hten⟩ := one_le_abs_toDouble_shifted (toDouble_of_toRat? hquotient.mantissa)
      hlow'' hhigh'' (by decide) (by decide)
    rw [neg_neg, zpow_one] at hplain hone hten
    exact ⟨s, _, _, hdiv.trans hs, hplain, hone, hten, by rw [if_pos hsmall]; rfl⟩
  · obtain ⟨s, hs, hplain⟩ := hquotient.normalize_self hlarge hless
    exact ⟨s, _, _, hdiv.trans hs, hplain, hlarge, hless, by rw [if_neg (not_lt.mpr hlarge)]⟩

/-! ## Whole numbers -/

variable {n : Nat}

/-- A double that is a whole number is held with the mantissa of that number. -/
theorem exists_plain_of_whole {x : Float} (hx : toRat? x = some (n : Rat)) (hn : n < 2 ^ 53) :
    ∃ p, (ofScalar x).normalize = .ok p ∧ Plain p (wholeMantissa n) (Decimal.log10 n) := by
  have hplain : Plain (ofScalar x) n 0 := ⟨rfl, toRat?_ofNat_one, hx, rfl⟩
  rcases Nat.eq_zero_or_pos n with rfl | hpos
  · rw [Nat.cast_zero] at hplain
    refine ⟨_, hplain.normalize_zero, ?_⟩
    rw [wholeMantissa_zero]
    exact hplain
  · obtain ⟨hlow, hhigh⟩ := Decimal.log10_bounds hpos
    have hlog := log10_le_of_lt hn
    have habs : |(n : Rat)| = n := Nat.abs_cast n
    obtain ⟨p, hp, hresult⟩ := hplain.normalize (k := Decimal.log10 n)
      (by rw [habs, zpow_natCast]; exact_mod_cast hlow)
      (by rw [habs]; exact_mod_cast hhigh) (by omega) (by omega)
    rw [zpow_neg, zpow_natCast, ← div_eq_mul_inv, zero_add] at hresult
    exact ⟨p, hp, hresult⟩

/-- It is held so from then on. -/
theorem Plain.normalize_whole (h : Plain q (wholeMantissa n) e) (hn : n < 2 ^ 53) :
    ∃ p, q.normalize = .ok p ∧ Plain p (wholeMantissa n) e := by
  rcases Nat.eq_zero_or_pos n with rfl | hpos
  · have hzero := h
    rw [wholeMantissa_zero] at hzero
    exact ⟨q, hzero.normalize_zero, h⟩
  · obtain ⟨hlow, hhigh⟩ := wholeMantissa_bounds hpos hn
    have habs := abs_of_pos (zero_lt_one.trans_le hlow)
    exact h.normalize_self (by rwa [habs]) (by rwa [habs])

theorem Plain.neg_whole (h : Plain q (wholeMantissa n) e) (hn : n < 2 ^ 53) :
    ∃ p, q.neg = .ok p ∧ Plain p (-wholeMantissa n) e := by
  have hneg : Plain ⟨-q.mantissa, q.unit⟩ (-wholeMantissa n) e :=
    ⟨h.dim, h.multiplier, toRat?_neg h.mantissa, h.decExp⟩
  rcases Nat.eq_zero_or_pos n with rfl | hpos
  · have hzero := hneg
    rw [wholeMantissa_zero, neg_zero] at hzero
    exact ⟨_, hzero.normalize_zero, hneg⟩
  · obtain ⟨hlow, hhigh⟩ := wholeMantissa_bounds hpos hn
    have habs : |-wholeMantissa n| = wholeMantissa n := by
      rw [abs_neg, abs_of_pos (zero_lt_one.trans_le hlow)]
    exact hneg.normalize_self (by rwa [habs]) (by rwa [habs])

variable {s : Int}

theorem abs_signed (hs : |s| = 1) (r : Rat) : |(s : Rat) * r| = |r| := by
  have hcast : |(s : Rat)| = 1 := by exact_mod_cast hs
  rw [abs_mul, hcast, one_mul]

/-- A mantissa with a sign, between one and ten. -/
theorem normal_signed_mul (hs : |s| = 1) {m : Rat} (hlow : 1 / 10 ≤ |m|) (hhigh : |m| ≤ 10)
    {e : Int} (he : |e| ≤ 22) : Normal (s * m * 10 ^ e) := by
  have hten : (1 : Rat) < 10 := by norm_num
  obtain ⟨hleast, hgreatest⟩ := abs_le.mp he
  have hpower : (10 : Rat) ^ e ≤ 10 ^ (22 : Int) := zpow_le_zpow_right₀ hten.le hgreatest
  have hpower' : (10 : Rat) ^ (-22 : Int) ≤ 10 ^ e := zpow_le_zpow_right₀ hten.le hleast
  have habs : |(s : Rat) * m * 10 ^ e| = |m| * 10 ^ e := by
    rw [abs_mul, abs_signed hs, abs_of_pos (by positivity : (0 : Rat) < 10 ^ e)]
  refine Normal.of_bounds ?_ ?_
  · rw [habs]
    calc (1 / 10 ^ 30 : Rat) ≤ 1 / 10 * 10 ^ (-22 : Int) := by norm_num
      _ ≤ |m| * 10 ^ e := mul_le_mul hlow hpower' (by positivity) (abs_nonneg m)
  · rw [habs]
    calc |m| * 10 ^ e ≤ 10 * 10 ^ (22 : Int) :=
          mul_le_mul hhigh hpower (by positivity) (by norm_num)
      _ ≤ 10 ^ 30 := by norm_num

/-- The value of a number with a sign is multiplied out with one rounding. -/
theorem Plain.value_signed {m : Rat} (hs : |s| = 1) (h : Plain q (s * m) e) (hlow : 1 / 10 ≤ |m|)
    (hhigh : |m| ≤ 10) (he : |e| ≤ 22) : toRat? q.value = some (s * toDouble (m * 10 ^ e)) := by
  have hmantissa : Normal (s * m) := by
    simpa using normal_signed_mul hs hlow hhigh (e := 0) (by norm_num)
  rw [h.value he (.inr hmantissa) (.inr (normal_signed_mul hs hlow hhigh he)), mul_assoc,
    toDouble_signed hs]

/-- **The value of a whole number is what comes back of it.** -/
theorem Plain.value_whole (hs : |s| = 1) (h : Plain q (s * wholeMantissa n) (Decimal.log10 n))
    (hn : n < 2 ^ 53) : toRat? q.value = some (s * rebuiltWhole n) := by
  have hlog := log10_le_of_lt hn
  rcases Nat.eq_zero_or_pos n with rfl | hpos
  · rw [wholeMantissa_zero, mul_zero] at h
    rw [h.value (by rw [abs_le]; omega) (.inl rfl) (.inl rfl), rebuiltWhole, wholeMantissa_zero,
      zero_mul, zero_mul, toDouble_zero, mul_zero]
  · obtain ⟨hlow, hhigh⟩ := wholeMantissa_bounds hpos hn
    have habs := abs_of_pos (zero_lt_one.trans_le hlow)
    rw [h.value_signed hs (by rw [habs]; linarith) (by rw [habs]; linarith)
      (by rw [abs_le]; omega), zpow_natCast]
    rfl

/-- **The value of a quotient of whole numbers is what comes back of it.** -/
theorem Plain.value_fraction {r : Quantity Float} {p d : Nat} (hs : |s| = 1)
    (h : Plain q (s * wholeMantissa p) (Decimal.log10 p))
    (h' : Plain r (wholeMantissa d) (Decimal.log10 d)) (hp : 0 < p) (hp' : p ≤ 1000) (hd : 0 < d)
    (hd' : d ≤ 1000) :
    ∃ v, q.div r = .ok v ∧ v.unit.dim = 1 ∧ toRat? v.value = some (s * rebuiltFraction p d) := by
  obtain ⟨hlow, hhigh⟩ := wholeMantissa_bounds hp (by omega)
  obtain ⟨hlow', -⟩ := wholeMantissa_bounds hd (by omega)
  have hlog : Decimal.log10 p ≤ 3 := log10_le (by omega)
  have hlog' : Decimal.log10 d ≤ 3 := log10_le (by omega)
  have habs : |s * wholeMantissa p| = wholeMantissa p := by
    rw [abs_signed hs, abs_of_pos (by linarith)]
  have hpos : 0 < toDouble (wholeMantissa p / wholeMantissa d) :=
    toDouble_pos (div_pos (by linarith) (by linarith))
  obtain ⟨v, l, k, hv, hplain, hone, hten, hparts⟩ :=
    h.div h' (by rwa [habs]) (by rwa [habs]) hlow' (wholeMantissa_le hd hd')
  rw [mul_div_assoc, toDouble_signed hs, abs_signed hs, abs_of_pos hpos] at hparts
  refine ⟨v, hv, hplain.dim, ?_⟩
  rw [rebuiltFraction]
  split at hparts
  · next hsmall =>
    rw [mul_assoc, toDouble_signed hs, Prod.mk.injEq] at hparts
    obtain ⟨rfl, rfl⟩ := hparts
    rw [abs_signed hs] at hone hten
    rw [hplain.value_signed hs (by linarith) hten.le (by rw [abs_le]; omega)]
    simp only [if_pos hsmall]
  · next hlarge =>
    rw [Prod.mk.injEq] at hparts
    obtain ⟨rfl, rfl⟩ := hparts
    rw [abs_signed hs] at hone hten
    rw [hplain.value_signed hs (by linarith) hten.le (by rw [abs_le]; omega)]
    simp only [if_neg hlarge]

end Quantity

/-! ## Powers -/

section Powers

variable {α : Type} [Scalar α]

theorem PhysUnit.ofParts_dim {dim : Dimension} {decExp : Int} {m : α} {u : PhysUnit α}
    (h : PhysUnit.ofParts dim decExp m = .ok u) : u.dim = dim := by
  rw [PhysUnit.ofParts] at h
  split at h
  · cases h
    rfl
  · cases h

theorem PhysUnit.ofParts_ne_calc {dim : Dimension} {decExp : Int} {m : α} {e : CalcError} :
    PhysUnit.ofParts dim decExp m ≠ .error (.calc e) := by
  rw [PhysUnit.ofParts]
  split <;> nofun

/-- The power of a unit has the power of its dimension. -/
theorem PhysUnit.pow_dim {u v : PhysUnit α} {n : Int} (h : u.pow n = .ok v) :
    v.dim = u.dim.pow n := by
  rw [PhysUnit.pow] at h
  split at h
  · next hzero =>
    split at h
    · next hone =>
      cases h
      have hdim : u.dim = 1 := by
        simpa [PhysUnit.isDimensionless, Dimension.isDimensionless] using hone
      rw [hzero, hdim]
      ext x
      simp [PhysUnit.one, PhysUnit.decimal]
    · obtain ⟨text, -, h⟩ := bind_eq_ok.mp h
      exact absurd h fail_ne_ok
  · split at h
    · exact PhysUnit.ofParts_dim h
    · obtain ⟨text, -, h⟩ := bind_eq_ok.mp h
      obtain ⟨text', -, h⟩ := bind_eq_ok.mp h
      exact absurd h fail_ne_ok

namespace Quantity

variable {q p v : Quantity α}

theorem normalize_dim (h : q.normalize = .ok v) : v.dim = q.dim := by
  rw [normalize] at h
  split at h
  · cases h
    rfl
  split at h
  · exact absurd h fail_ne_ok
  · obtain ⟨unit, hunit, h⟩ := bind_eq_ok.mp h
    cases h
    exact PhysUnit.ofParts_dim hunit

/-- **An integer power has that power of the dimension.** -/
theorem powInt_dim {n : Int} (h : q.powInt n = .ok v) : v.dim = q.dim.pow n := by
  rw [powInt] at h
  obtain ⟨unit, hunit, h⟩ := bind_eq_ok.mp h
  have hdim : unit.dim = q.dim.pow n := PhysUnit.pow_dim hunit
  split at h
  · split at h
    · exact absurd h fail_ne_ok
    · cases h
      exact hdim
  · split at h
    · exact (normalize_dim h).trans hdim
    · obtain ⟨text, -, h⟩ := bind_eq_ok.mp h
      obtain ⟨text', -, h⟩ := bind_eq_ok.mp h
      exact absurd h fail_ne_ok

/-- **A fractional power has the power of the dimension that the exponent was recognised as.** -/
theorem powFrac_dim {x : α} {r : Rat} (hr : Scalar.rationalize? x = some r)
    (h : q.powFrac x = .ok v) : v.dim = q.dim.pow r := by
  rw [powFrac, hr] at h
  dsimp only at h
  split at h
  · obtain ⟨text, -, h⟩ := bind_eq_ok.mp h
    exact absurd h fail_ne_ok
  split at h
  · split at h
    · exact absurd h fail_ne_ok
    · cases h
      rfl
  split at h
  · exact normalize_dim h
  · obtain ⟨text, -, h⟩ := bind_eq_ok.mp h
    exact absurd h fail_ne_ok
  · cases h

theorem liftM_ne_calc {β : Type} {x : Except Fault β} {e : CalcError} :
    (liftM x : Result β) ≠ .error (.calc e) := by
  cases x with
  | ok b => nofun
  | error f => nofun

theorem normalize_ne_inexact (q : Quantity α) (text : String) :
    q.normalize ≠ .error (.calc (.inexactExponent text)) := by
  intro h
  rw [normalize] at h
  split at h
  · cases h
  split at h
  · cases h
  · rcases bind_eq_error.mp h with h | ⟨unit, -, h⟩
    · exact PhysUnit.ofParts_ne_calc h
    · cases h

/-- Only an exponent that is not recognised is refused as inexact. -/
theorem powFrac_ne_inexact {x : α} {r : Rat} (hr : Scalar.rationalize? x = some r)
    (text : String) : q.powFrac x ≠ .error (.calc (.inexactExponent text)) := by
  intro h
  rw [powFrac, hr] at h
  dsimp only at h
  split at h
  · rcases bind_eq_error.mp h with h | ⟨shown, -, h⟩
    · exact liftM_ne_calc h
    · cases h
  split at h
  · split at h <;> cases h
  split at h
  · exact normalize_ne_inexact _ text h
  · rcases bind_eq_error.mp h with h | ⟨shown, -, h⟩
    · exact liftM_ne_calc h
    · cases h
  · cases h

theorem powFrac_inexact {x : α} (hr : Scalar.rationalize? x = none) :
    q.powFrac x = .error (.calc (.inexactExponent (Scalar.text x))) := by
  rw [powFrac, hr]
  rfl

/-- A plain exponent that is an integer goes to the integer power, any other one to the fractional
power. -/
theorem pow_of_dimensionless (hdim : p.unit.dim = 1) (hfinite : Scalar.isFinite p.value = true) :
    q.pow p = match Scalar.toInt? p.value with
      | some n => q.powInt n
      | none => q.powFrac p.value := by
  have hplain : p.isDimensionless = true := by
    simp [isDimensionless, PhysUnit.isDimensionless, Dimension.isDimensionless, hdim]
  rw [pow, hplain, hfinite]
  rfl

end Quantity

end Powers

end Mensura
