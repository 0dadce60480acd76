import Mensura.Expr.Eval
import Mensura.Proofs.Binary64.Power
import Mensura.Proofs.Binary64.Restored
import Mensura.Proofs.Quantity.Normal
import Mensura.Proofs.Quantity.WholeExponent
import Mensura.Proofs.Text.Integer

/-!
# Integer powers of quantities

The mantissa and the multiplier of a quantity are raised separately, and the power of ten between
them is multiplied.  A power that is too large for a double is refused.  One that is too small is
not: a mantissa becomes zero, however large the rest of the quantity is, and a multiplier is a fault
(`pow_integer`).  What is kept has the size that it should have, up to a factor, so that a power and
the opposite power multiply to a value other than zero (`PowerOutcome.exists_mul_value`).
-/

set_option autoImplicit false

namespace Mensura

open Binary64

/-! ## Sizes up to a factor -/

namespace Binary64

variable {x : Float} {a b v : Rat}

/-- What is up to a factor of eight a double is not far beyond the range. -/
theorem UpTo.lt_of_double (h : UpTo 8 |v| a) (hx : toRat? x = some v) : a < 2 ^ (1027 : Int) := by
  have hless := abs_lt_of_toRat? hx
  have hle := h.le'
  rw [show (1027 : Int) = 1024 + 3 from rfl, zpow_add₀ (by norm_num)]
  generalize (2 : Rat) ^ (1024 : Int) = bound at hless ⊢
  norm_num
  linarith

/-- A few roundings are less than a factor of two. -/
theorem Approx.upTo {k : Nat} (h : Approx k x a) (hk : k ≤ 400) :
    ∃ σ, toRat? x = some σ ∧ σ ≠ 0 ∧ UpTo 2 |σ| |a| := by
  obtain ⟨σ, hσ, hsign, hwithin⟩ := h
  obtain ⟨hlow, hhigh⟩ := hwithin.bounds hk
  refine ⟨σ, hσ, left_ne_zero_of_mul hsign.ne', hwithin.pos, hwithin.pos', ?_, ?_⟩ <;>
    norm_num at hlow hhigh <;> linarith [hwithin.pos, hwithin.pos']

theorem inner_of_le (hlow : 1 / 10 ^ 6 ≤ a) (hhigh : a ≤ 10 ^ 6) : Inner a :=
  .of_zpow (e := -6) (f := 6) (by norm_num at hlow ⊢; exact hlow)
    (by norm_num at hhigh ⊢; exact hhigh) (by decide) (by decide)

/-- The product of two doubles with one digit before the point. -/
theorem approx_digit_mul {y : Float} (hx : toRat? x = some a) (hy : toRat? y = some b)
    (ha : 1 ≤ |a|) (ha' : |a| ≤ 10) (hb : 1 ≤ |b|) (hb' : |b| ≤ 10) :
    Approx 1 (x * y) (a * b) ∧ 1 ≤ |a * b| ∧ |a * b| ≤ 100 := by
  have hlow : 1 ≤ |a * b| := by
    rw [abs_mul]
    exact one_le_mul_of_one_le_of_one_le ha hb
  have hhigh : |a * b| ≤ 100 := by
    rw [abs_mul, show (100 : Rat) = 10 * 10 by norm_num]
    exact mul_le_mul ha' hb' (abs_nonneg b) (by norm_num)
  refine ⟨?_, hlow, hhigh⟩
  exact (Approx.of_toRat? hx (abs_pos.mp (zero_lt_one.trans_le ha))).mul
    (.of_toRat? hy (abs_pos.mp (zero_lt_one.trans_le hb))) (by decide)
    (inner_of_le (by linarith) (by linarith))

/-- The digits of a double and its decimal exponent are its size, up to a factor. -/
theorem exists_digits_upTo (hx : toRat? x = some v) (hv : v ≠ 0) :
    ∃ s, toRat? (scale10 x (-ilog10 x)) = some s ∧ 1 ≤ |s| ∧ |s| ≤ 10 ∧
      UpTo 2 (|s| * 10 ^ ilog10 x) |v| := by
  obtain ⟨s, hs, hone, hten, hnear⟩ := exists_digits hx hv
  refine ⟨s, hs, hone, hten, ?_⟩
  have hpower : (0 : Rat) < 10 ^ ilog10 x := by positivity
  rw [← abs_of_pos hpower, ← abs_mul]
  refine .of_abs_sub_le hv (hnear.trans ?_)
  have hnonneg := abs_nonneg v
  norm_num
  linarith

end Binary64

/-! ## Normalizing -/

namespace Quantity

variable {q r : Quantity Float} {x : Float} {a v ρ m μ : Rat} {n : Int}

theorem shiftedFactor_upTo (hx : toRat? x = some ρ) (hρ : 0 < ρ)
    (hμ : toRat? (shiftedFactor x) = some μ) (hpos : 0 < μ) :
    UpTo 2 (μ * 10 ^ factorShift x) ρ := by
  rw [shiftedFactor, factorShift] at hμ
  rw [factorShift]
  split at hμ
  · obtain rfl := Option.some.inj (hx.symm.trans hμ)
    rw [if_pos ‹_›, zpow_zero, mul_one]
    exact ⟨hρ, hρ, by linarith, by linarith⟩
  · next hone =>
    rw [if_neg hone]
    obtain ⟨s, hs, -, -, hsize⟩ := exists_digits_upTo hx hρ.ne'
    obtain rfl := Option.some.inj (hs.symm.trans hμ)
    rwa [abs_of_pos hpos, abs_of_pos hρ] at hsize

/-- **Normalizing keeps the size** of a quantity up to a factor, even if its value is out of
range. -/
theorem exists_normalize_upTo (hx : toRat? q.mantissa = some v) (hv : v ≠ 0)
    (hunit : toRat? q.unit.multiplier = some ρ) (hρ : ρ ≠ 0) :
    ∃ r m μ, q.normalize = .ok r ∧ r.dim = q.dim ∧ Shifted r m μ ∧
      UpTo 4 (|m| * μ * 10 ^ r.unit.decExp) (|v| * |ρ| * 10 ^ q.unit.decExp) := by
  obtain ⟨w, hw, hwv, hfactor⟩ := exists_signMoved hx hunit
  have hw0 : w ≠ 0 := abs_ne_zero.mp (hwv ▸ abs_ne_zero.mpr hv)
  obtain ⟨m, hm, hone, hten, hsize⟩ := exists_digits_upTo hw hw0
  obtain ⟨μ, hμ, hone', hten', -⟩ := exists_shiftedFactor hfactor (abs_pos.mpr hρ)
  have hμ0 : 0 < μ := zero_lt_one.trans_le hone'
  have hsize' := shiftedFactor_upTo hfactor (abs_pos.mpr hρ) hμ hμ0
  rw [normalize_eq_shifted hx hv, PhysUnit.ofParts, dif_pos (isFactor_of_ne_zero hμ hμ0.ne')]
  refine ⟨_, m, μ, rfl, rfl, ⟨hm, hμ, hone, hten, hone', hten'⟩, ?_⟩
  have hboth := (hsize.mul hsize').mul_right (by positivity : (0 : Rat) < 10 ^ q.unit.decExp)
  rw [hwv] at hboth
  have hscale : |m| * μ * 10 ^ (q.unit.decExp + factorShift (signMoved q).2 +
      ilog10 (signMoved q).1) = |m| * 10 ^ ilog10 (signMoved q).1 *
        (μ * 10 ^ factorShift (signMoved q).2) * 10 ^ q.unit.decExp := by
    rw [zpow_add₀ (by norm_num), zpow_add₀ (by norm_num)]
    ring
  change UpTo 4 (|m| * μ * 10 ^ (q.unit.decExp + factorShift (signMoved q).2 +
      ilog10 (signMoved q).1)) _
  rw [hscale]
  norm_num at hboth
  exact hboth

end Quantity

/-! ## Errors -/

/-- An error that an integer power may stop with: one of the domain, or a fault if it would have to
show exponents that are too long to be written. -/
inductive PowerError (d : Dimension) : Failure → Prop
  | domain {c : CalcError} (hc : c.kind = .domain) : PowerError d (.calc c)
  | unwritable (hd : d.isWritable = false) : PowerError d (.fault .integerTooLarge)

/-- A calculation that stops with such an error. -/
def Refused {β : Type} (d : Dimension) (r : Result β) : Prop :=
  ∃ e, r = .error e ∧ PowerError d e

section Errors

variable {β γ : Type} {d : Dimension} {n : Int} {y : Float}

theorem Refused.fail {c : CalcError} (hc : c.kind = .domain) :
    Refused d (Mensura.fail c : Result β) :=
  ⟨_, rfl, .domain hc⟩

theorem Refused.not_ok {b : β} : ¬Refused d (.ok b : Result β) := by
  rintro ⟨e, he, -⟩
  cases he

theorem Refused.bind {r : Result γ} (h : Refused d r) (f : γ → Result β) :
    Refused d (r >>= f) := by
  obtain ⟨e, rfl, he⟩ := h
  exact ⟨e, rfl, he⟩

/-- An error that shows a text which shows the dimension. -/
theorem Refused.of_text {x : Except Fault String} {f : String → Result β}
    (hx : (∃ s, x = .ok s) ∨ x = .error .integerTooLarge ∧ d.isWritable = false)
    (hf : ∀ s, Refused d (f s)) : Refused d (liftM x >>= f) := by
  obtain ⟨s, rfl⟩ | ⟨rfl, hd⟩ := hx
  · exact hf s
  · exact ⟨_, rfl, .unwritable hd⟩

theorem Dimension.text_cases (d : Dimension) :
    (∃ s, d.text = .ok s) ∨ d.text = .error .integerTooLarge ∧ d.isWritable = false := by
  rw [Dimension.text, Dimension.checkWritable]
  cases d.isWritable with
  | true => exact .inl ⟨_, rfl⟩
  | false => exact .inr ⟨rfl, rfl⟩

theorem PhysUnit.text_cases (u : PhysUnit Float) :
    (∃ s, u.text = .ok s) ∨ u.text = .error .integerTooLarge ∧ u.dim.isWritable = false := by
  rw [PhysUnit.text]
  obtain ⟨s, hs⟩ | ⟨hs, hd⟩ := u.dim.text_cases <;> rw [hs]
  · exact .inl ⟨_, rfl⟩
  · exact .inr ⟨rfl, hd⟩

theorem Quantity.text_cases (q : Quantity Float) :
    (∃ s, q.text = .ok s) ∨ q.text = .error .integerTooLarge ∧ q.dim.isWritable = false := by
  rw [Quantity.text]
  obtain ⟨s, hs⟩ | ⟨hs, hd⟩ := q.dim.text_cases <;> rw [hs]
  · exact .inl ⟨_, rfl⟩
  · exact .inr ⟨rfl, hd⟩

/-- An exponent that is a double can be written. -/
theorem exists_integerText (hn : toRat? y = some (n : Rat)) : ∃ s, Text.integerText n = .ok s := by
  have hless : n.natAbs < 2 ^ 1024 := by
    have hrange := abs_lt_of_toRat? hn
    rw [← Nat.cast_lt (α := Rat), natAbs_cast_eq_abs, Nat.cast_pow, Nat.cast_ofNat]
    rwa [← zpow_natCast]
  have hwritable := Text.isWritable_of_natAbs_lt (k := 1024) (by decide) hless
  exact ⟨_, by rw [Text.integerText, if_pos hwritable]⟩

end Errors

/-! ## Powers of units -/

namespace PhysUnit

variable {u : PhysUnit Float} {y : Float} {ρ : Rat} {n : Int}

theorem ofParts_of_zero (dim : Dimension) (e : Int) (hy : toRat? y = some 0) :
    ofParts dim e y = .error (.fault .multiplier) := by
  have hzero : Scalar.isZero y = true := (isZero_iff hy).mpr rfl
  rw [ofParts, dif_neg (by simp [Scalar.isFactor, hzero])]

theorem ofParts_of_ne_zero (dim : Dimension) (e : Int) (hy : toRat? y = some ρ) (hρ : ρ ≠ 0) :
    ofParts dim e y = .ok ⟨dim, e, y, isFactor_of_ne_zero hy hρ⟩ :=
  dif_pos _

/-- What becomes of an integer power of a unit. -/
inductive PowerOutcome (u : PhysUnit Float) (ρ : Rat) (n : Int) : Result (PhysUnit Float) → Prop
  /-- The multiplier is too small for a double. -/
  | vanished (hρ : |ρ| ^ n ≤ 2 ^ (-1074 : Int)) : PowerOutcome u ρ n (.error (.fault .multiplier))
  /-- It is too large for one, or the unit of a length is raised to the power zero. -/
  | refused {r : Result (PhysUnit Float)} (hρ : 2 ^ (-1076 : Int) < |ρ| ^ n)
    (hwhy : 2 ^ (1021 : Int) ≤ |ρ| ^ n ∨ n = 0 ∧ u.dim ≠ 1) (hr : Refused u.dim r) :
    PowerOutcome u ρ n r
  | kept {v : PhysUnit Float} {σ : Rat} (hρ : 2 ^ (-1076 : Int) < |ρ| ^ n)
    (hσ : toRat? v.multiplier = some σ) (hsize : UpTo 8 |σ| (|ρ| ^ n))
    (hexp : v.decExp = u.decExp * n) : PowerOutcome u ρ n (.ok v)

/-- The powers of one, of any unit. -/
theorem pow_zero_outcome : PowerOutcome u ρ 0 (u.pow 0) := by
  have hone : (2 : Rat) ^ (-1076 : Int) < |ρ| ^ (0 : Int) := by
    rw [zpow_zero]
    exact zpow_lt_one_of_neg₀ (by norm_num) (by norm_num)
  rw [pow, if_pos rfl]
  split
  · refine .kept hone toRat?_ofNat_one ?_ (mul_zero _).symm
    rw [zpow_zero, abs_one]
    exact ⟨one_pos, one_pos, by norm_num, by norm_num⟩
  · next hdim =>
    refine .refused hone (.inr ⟨rfl, ?_⟩) (.of_text u.text_cases fun _ ↦ .fail rfl)
    simpa [isDimensionless, Dimension.isDimensionless] using hdim

/-- **An integer power of a unit** is refused if it is too large, and a fault if it is too small. -/
theorem pow_outcome (hunit : toRat? u.multiplier = some ρ) (hρ : ρ ≠ 0)
    (hn : toRat? y = some (n : Rat)) : PowerOutcome u ρ n (u.pow n) := by
  rcases eq_or_ne n 0 with rfl | hn0
  · exact pow_zero_outcome
  · have hpower : Power (|ρ| ^ n) (Scalar.powInt u.multiplier n) := power_powInt hunit hρ hn
    rw [pow, if_neg hn0]
    cases h : Scalar.powInt u.multiplier n <;> rw [h] at hpower
    case none =>
      obtain ⟨text, htext⟩ := exists_integerText hn
      cases hpower with
      | overflow hr =>
        have hlarge : (2 : Rat) ^ (-1076 : Int) < |ρ| ^ n :=
          hr.trans_lt' (zpow_lt_zpow_right₀ (by norm_num) (by norm_num))
        exact .refused hlarge (.inl hr)
          (.of_text u.text_cases fun _ ↦ .of_text (.inl ⟨text, htext⟩) fun _ ↦ .fail rfl)
    case some m =>
      dsimp only
      cases hpower with
      | underflow hy hr =>
        rw [ofParts_of_zero _ _ hy]
        exact .vanished hr
      | value hy hr hnear =>
        rw [ofParts_of_ne_zero _ _ hy (abs_pos.mp hnear.pos)]
        exact .kept hr hy hnear rfl

end PhysUnit

/-! ## Powers of quantities -/

namespace Quantity

variable {q p r r' : Quantity Float} {x y : Float} {a ρ m m' μ μ' : Rat} {n : Int}

/-- What becomes of an integer power of a quantity. -/
inductive PowerOutcome (q : Quantity Float) (a ρ : Rat) (n : Int) :
    Result (Quantity Float) → Prop
  /-- The multiplier is too small for a double. -/
  | unitVanished (hρ : |ρ| ^ n ≤ 2 ^ (-1074 : Int)) :
    PowerOutcome q a ρ n (.error (.fault .multiplier))
  /-- The multiplier or the mantissa is too large for a double, or a length is raised to the power
  zero. -/
  | refused {r : Result (Quantity Float)} (hρ : 2 ^ (-1076 : Int) < |ρ| ^ n)
    (hwhy : 2 ^ (1021 : Int) ≤ |a| ^ n ∨ 2 ^ (1021 : Int) ≤ |ρ| ^ n ∨ n = 0 ∧ q.dim ≠ 1)
    (hr : Refused q.dim r) : PowerOutcome q a ρ n r
  /-- The mantissa is too small for a double. -/
  | vanished {r : Quantity Float} (hρ : 2 ^ (-1076 : Int) < |ρ| ^ n)
    (ha : |a| ^ n ≤ 2 ^ (-1074 : Int)) (hr : toRat? r.mantissa = some 0) :
    PowerOutcome q a ρ n (.ok r)
  | kept {r : Quantity Float} {m μ : Rat} (hρ : 2 ^ (-1076 : Int) < |ρ| ^ n)
    (ha : 2 ^ (-1076 : Int) < |a| ^ n) (ha' : |a| ^ n < 2 ^ (1027 : Int)) (hr : Shifted r m μ)
    (hsize : UpTo 256 (|m| * μ * 10 ^ r.unit.decExp)
      (|a| ^ n * |ρ| ^ n * 10 ^ (q.unit.decExp * n))) : PowerOutcome q a ρ n (.ok r)

theorem powInt_outcome (hx : toRat? q.mantissa = some a) (ha : a ≠ 0)
    (hunit : toRat? q.unit.multiplier = some ρ) (hρ : ρ ≠ 0) (hn : toRat? y = some (n : Rat)) :
    PowerOutcome q a ρ n (q.powInt n) := by
  have hpower : Power (|a| ^ n) (Scalar.powInt q.mantissa n) := power_powInt hx ha hn
  have hunitPower := PhysUnit.pow_outcome hunit hρ hn
  rw [powInt, isZero_eq_false hx ha]
  generalize q.unit.pow n = u at hunitPower
  cases hunitPower with
  | vanished hρ => exact .unitVanished hρ
  | refused hρ hwhy hr => exact .refused hρ (.inr hwhy) (hr.bind _)
  | kept hρn hσ hsize hexp =>
    simp only [ok_bind, Bool.false_eq_true, if_false]
    cases h : Scalar.powInt q.mantissa n <;> rw [h] at hpower
    case none =>
      obtain ⟨text, htext⟩ := exists_integerText hn
      obtain ⟨hr⟩ := hpower
      exact .refused hρn (.inl hr)
        (.of_text q.text_cases fun _ ↦ .of_text (.inl ⟨text, htext⟩) fun _ ↦ .fail rfl)
    case some z =>
      dsimp only
      cases hpower with
      | underflow hy hr =>
        rw [normalize, if_pos ((isZero_iff hy).mpr rfl)]
        exact .vanished hρn hr hy
      | value hy hr hnear =>
        obtain ⟨r, m, μ, hnormal, -, hshifted, hsize'⟩ :=
          exists_normalize_upTo (q := ⟨z, _⟩) hy (abs_pos.mp hnear.pos) hσ (abs_pos.mp hsize.pos)
        rw [hnormal]
        refine .kept hρn hr (hnear.lt_of_double hy) hshifted ?_
        have hproduct := (hnear.mul hsize).mul_right
          (by positivity : (0 : Rat) < 10 ^ (q.unit.decExp * n))
        rw [← hexp] at hproduct ⊢
        have hboth := hsize'.trans hproduct
        norm_num at hboth
        exact hboth

/-- A plain exponent is taken for its value. -/
theorem pow_outcome (hx : toRat? q.mantissa = some a) (ha : a ≠ 0)
    (hunit : toRat? q.unit.multiplier = some ρ) (hρ : ρ ≠ 0) (hp : p.dim = 1)
    (hn : toRat? p.value = some (n : Rat)) : PowerOutcome q a ρ n (q.pow p) := by
  rw [pow_of_admitted q (.inl hp) hn]
  exact powInt_outcome hx ha hunit hρ hn

/-! ## A power and the opposite power -/

/-- **Quantities whose sizes are almost inverse multiply to a value other than zero.** -/
theorem Shifted.exists_mul_value (h : Shifted r m μ) (h' : Shifted r' m' μ')
    (hsize : UpTo 65536 (|m| * μ * 10 ^ r.unit.decExp * (|m'| * μ' * 10 ^ r'.unit.decExp)) 1) :
    ∃ s v, r.mul r' = .ok s ∧ s.dim = r.dim * r'.dim ∧ toRat? s.value = some v ∧ v ≠ 0 := by
  have hμ : |μ| = μ := abs_of_pos (zero_lt_one.trans_le h.one_le_multiplier)
  have hμ' : |μ'| = μ' := abs_of_pos (zero_lt_one.trans_le h'.one_le_multiplier)
  obtain ⟨hmantissa, hlow, hhigh⟩ := approx_digit_mul h.mantissa h'.mantissa h.one_le_mantissa
    h.mantissa_le_ten h'.one_le_mantissa h'.mantissa_le_ten
  obtain ⟨hmultiplier, hlow', hhigh'⟩ := approx_digit_mul h.multiplier h'.multiplier
    (hμ.symm ▸ h.one_le_multiplier) (hμ.symm ▸ h.multiplier_le_ten)
    (hμ'.symm ▸ h'.one_le_multiplier) (hμ'.symm ▸ h'.multiplier_le_ten)
  obtain ⟨σ, hσ, hσ0, hσsize⟩ := hmultiplier.upTo (by decide)
  have hfactor := isFactor_of_ne_zero hσ hσ0
  have hpower : (0 : Rat) < 10 ^ (r.unit.decExp + r'.unit.decExp) := by positivity
  have hexact : UpTo 65536
      (|μ * μ'| * (|m * m'| * 10 ^ (r.unit.decExp + r'.unit.decExp))) 1 := by
    convert hsize using 1
    rw [abs_mul, abs_mul, hμ, hμ', zpow_add₀ (by norm_num)]
    ring
  have hvalue : UpTo (2 * 65536) |m * m' * σ * 10 ^ (r.unit.decExp + r'.unit.decExp)| 1 := by
    convert (hσsize.mul_right (mul_pos (zero_lt_one.trans_le hlow) hpower)).trans hexact using 1
    rw [abs_mul, abs_mul _ σ, abs_of_pos hpower]
    ring
  obtain ⟨-, -, hhighσ, hlowσ⟩ := hσsize
  have hinner : Inner |m * m' * σ * 10 ^ (r.unit.decExp + r'.unit.decExp)| :=
    inner_of_le (by linarith [hvalue.le']) (by linarith [hvalue.le])
  obtain ⟨s, hs, hdim, v, hv, hsign, -⟩ := normalize_value
    (q := ⟨_, r.dim * r'.dim, r.unit.decExp + r'.unit.decExp, _, hfactor⟩) hmantissa
    (by decide) (inner_of_le (by linarith) (by linarith)) hσ
    (inner_of_le (by linarith) (by linarith)) hinner
  refine ⟨s, v, ?_, hdim, hv, left_ne_zero_of_mul hsign.ne'⟩
  rw [mul, PhysUnit.mul, PhysUnit.ofParts_of_ne_zero _ _ hσ hσ0]
  exact hs

/-- What a power keeps that has an opposite power. -/
theorem PowerOutcome.exists_shifted (ha : a ≠ 0) (h : PowerOutcome q a ρ n (.ok r))
    (h' : PowerOutcome q a ρ (-n) (.ok r')) : ∃ m μ, Shifted r m μ ∧
      UpTo 256 (|m| * μ * 10 ^ r.unit.decExp)
        (|a| ^ n * |ρ| ^ n * 10 ^ (q.unit.decExp * n)) := by
  cases h with
  | refused _ _ hr => exact absurd hr Refused.not_ok
  | kept _ _ _ hr hsize => exact ⟨_, _, hr, hsize⟩
  | vanished _ hsmall _ =>
    -- The opposite power of the mantissa would lie beyond the range.
    have hpos : 0 < |a| ^ n := zpow_pos (abs_pos.mpr ha) n
    have hlarge : (2 : Rat) ^ (1074 : Int) ≤ |a| ^ (-n) := by
      rw [zpow_neg, ← neg_neg (1074 : Int), zpow_neg]
      exact inv_anti₀ hpos hsmall
    have hless : |a| ^ (-n) < 2 ^ (1027 : Int) := by
      cases h' with
      | refused _ _ hr => exact absurd hr Refused.not_ok
      | kept _ _ ha' _ _ => exact ha'
      | vanished _ hsmall' _ =>
        exact hsmall'.trans_lt (zpow_lt_zpow_right₀ (by norm_num) (by norm_num))
    have hle : (2 : Rat) ^ (1027 : Int) ≤ 2 ^ (1074 : Int) :=
      zpow_le_zpow_right₀ (by norm_num) (by norm_num)
    exact absurd (hle.trans hlarge) hless.not_ge

/-- **A power and the opposite power multiply to a value other than zero.** -/
theorem PowerOutcome.exists_mul_value (ha : a ≠ 0) (hρ : ρ ≠ 0)
    (h : PowerOutcome q a ρ n (.ok r)) (h' : PowerOutcome q a ρ (-n) (.ok r')) :
    ∃ s v, r.mul r' = .ok s ∧ s.dim = r.dim * r'.dim ∧ toRat? s.value = some v ∧ v ≠ 0 := by
  obtain ⟨m, μ, hr, hsize⟩ := h.exists_shifted ha h'
  obtain ⟨m', μ', hr', hsize'⟩ := h'.exists_shifted ha (by rwa [neg_neg])
  refine hr.exists_mul_value hr' ?_
  convert hsize.mul hsize' using 1
  · norm_num
  · have hpos : 0 < |a| ^ n := zpow_pos (abs_pos.mpr ha) n
    have hpos' : 0 < |ρ| ^ n := zpow_pos (abs_pos.mpr hρ) n
    rw [mul_neg, zpow_neg, zpow_neg, zpow_neg, ← mul_inv, ← mul_inv, mul_inv_cancel₀]
    positivity

theorem PowerOutcome.sound {o : Result (Quantity Float)} (h : PowerOutcome q a ρ n o)
    (ha : 2 ^ (-1074 : Int) < |a| ^ n) (hρ : 2 ^ (-1074 : Int) < |ρ| ^ n)
    (hd : q.dim.isWritable = true) : (∃ c, o = .error (.calc c) ∧ c.kind = .domain) ∨
      ∃ r m μ, o = .ok r ∧ Shifted r m μ := by
  cases h with
  | unitVanished hsmall => exact absurd hρ hsmall.not_gt
  | vanished _ hsmall _ => exact absurd ha hsmall.not_gt
  | kept _ _ _ hr _ => exact .inr ⟨_, _, _, rfl, hr⟩
  | refused _ _ hr =>
    obtain ⟨e, rfl, he⟩ := hr
    cases he with
    | domain hc => exact .inl ⟨_, rfl, hc⟩
    | unwritable hd' => exact absurd hd (by simp [hd'])

/-- A power that is not negative of a number that is not small is not small. -/
theorem two_pow_lt_zpow (hn : 0 ≤ n) (ha : 1 ≤ |a|) : 2 ^ (-1074 : Int) < |a| ^ n :=
  (zpow_lt_one_of_neg₀ (by norm_num) (by norm_num)).trans_le (one_le_zpow₀ ha hn)

theorem pow_mul_pow_neg (d : Dimension) (n : Int) : d.pow n * d.pow (-n : Int) = 1 := by
  ext b
  simp

/-- **An integer power never vanishes unless it is too small for a double**, and does then.

The mantissa and the multiplier are raised separately.  The power is refused with an error of the
domain where one of them is too large, or the unit of a length is raised to the power zero; only a
dimension that cannot be written makes a fault of that.  A multiplier that is too small is a fault,
but a mantissa that is too small is zero.  Where a power and the opposite power both succeed,
neither vanishes, and they multiply to a plain number other than zero. -/
theorem pow_integer (hx : toRat? q.mantissa = some a) (ha : a ≠ 0)
    (hunit : toRat? q.unit.multiplier = some ρ) (hp : p.dim = 1)
    (hn : toRat? p.value = some (n : Rat)) :
    PowerOutcome q a ρ n (q.pow p) ∧
    (2 ^ (-1074 : Int) < |a| ^ n → 2 ^ (-1074 : Int) < |ρ| ^ n → q.dim.isWritable = true →
      (∃ c, q.pow p = .error (.calc c) ∧ c.kind = .domain) ∨
        ∃ r m μ, q.pow p = .ok r ∧ Shifted r m μ) ∧
    (|a| ^ n ≤ 2 ^ (-1076 : Int) → ∀ r, q.pow p = .ok r → toRat? r.mantissa = some 0) ∧
    (|ρ| ^ n ≤ 2 ^ (-1076 : Int) → q.pow p = .error (.fault .multiplier)) ∧
    ∀ p' r r', p'.dim = 1 → toRat? p'.value = some (-n : Rat) → q.pow p = .ok r →
      q.pow p' = .ok r' → (∃ m μ, Shifted r m μ) ∧ (∃ m μ, Shifted r' m μ) ∧
        ∃ s v, r.mul r' = .ok s ∧ s.dim = 1 ∧ toRat? s.value = some v ∧ v ≠ 0 := by
  have hρ : ρ ≠ 0 := by
    obtain ⟨σ, hσ, hσ0⟩ := exists_multiplier q.unit
    rwa [Option.some.inj (hunit.symm.trans hσ)]
  have houtcome := pow_outcome hx ha hunit hρ hp hn
  refine ⟨houtcome, houtcome.sound, fun hsmall r hr ↦ ?_, fun hsmall ↦ ?_, ?_⟩
  · rw [hr] at houtcome
    cases houtcome with
    | refused _ _ hr => exact absurd hr Refused.not_ok
    | vanished _ _ hr => exact hr
    | kept _ ha _ _ _ => exact absurd ha hsmall.not_gt
  · generalize q.pow p = o at houtcome
    cases houtcome with
    | unitVanished => rfl
    | refused hρ | vanished hρ | kept hρ => exact absurd hρ hsmall.not_gt
  · intro p' r r' hp' hn' hr hr'
    rw [← Int.cast_neg] at hn'
    have houtcome' := pow_outcome hx ha hunit hρ hp' hn'
    have hdim : r.dim * r'.dim = 1 := by
      rw [pow_of_admitted q (.inl hp) hn] at hr
      rw [pow_of_admitted q (.inl hp') hn'] at hr'
      rw [powInt_dim hr, powInt_dim hr', pow_mul_pow_neg]
    rw [hr] at houtcome
    rw [hr'] at houtcome'
    obtain ⟨m, μ, hshifted, -⟩ := houtcome.exists_shifted ha houtcome'
    obtain ⟨m', μ', hshifted', -⟩ := houtcome'.exists_shifted ha (by rwa [neg_neg])
    obtain ⟨s, v, hs, hsdim, hv⟩ := houtcome.exists_mul_value ha hρ houtcome'
    exact ⟨⟨m, μ, hshifted⟩, ⟨m', μ', hshifted'⟩, s, v, hs, hsdim.trans hdim, hv⟩

/-- Three thousand metres. -/
def threeKilometres : Quantity Float :=
  ⟨Scalar.ofNat 3, .decimal (.base .length) 3⟩

/-- The square of a length. -/
theorem pow_integer_square : toRat? threeKilometres.mantissa = some 3 ∧ (3 : Rat) ≠ 0 ∧
    toRat? threeKilometres.unit.multiplier = some 1 ∧
    (ofScalar (Scalar.ofNat 2 : Float)).dim = 1 ∧
    toRat? (ofScalar (Scalar.ofNat 2 : Float)).value = some (2 : Int) ∧
    ∃ r m μ, threeKilometres.pow (ofScalar (Scalar.ofNat 2)) = .ok r ∧ Shifted r m μ := by
  have hmantissa : toRat? threeKilometres.mantissa = some 3 := by decide +kernel
  have htwo : toRat? (ofScalar (Scalar.ofNat 2 : Float)).value = some (2 : Int) := by
    decide +kernel
  obtain ⟨houtcome, -⟩ := pow_integer hmantissa (by norm_num) toRat?_ofNat_one rfl htwo
  refine ⟨hmantissa, by norm_num, toRat?_ofNat_one, rfl, htwo, ?_⟩
  have hnine : |(3 : Rat)| ^ (2 : Int) < 2 ^ (1021 : Int) :=
    (by norm_num : |(3 : Rat)| ^ (2 : Int) < 2 ^ (4 : Int)).trans
      (zpow_lt_zpow_right₀ (by norm_num) (by norm_num))
  have hone : |(1 : Rat)| ^ (2 : Int) < 2 ^ (1021 : Int) :=
    (by norm_num : |(1 : Rat)| ^ (2 : Int) < 2 ^ (1 : Int)).trans
      (zpow_lt_zpow_right₀ (by norm_num) (by norm_num))
  generalize threeKilometres.pow (ofScalar (Scalar.ofNat 2)) = o at houtcome ⊢
  cases houtcome with
  | unitVanished h => exact absurd h (two_pow_lt_zpow (by decide) (by norm_num)).not_ge
  | vanished _ h _ => exact absurd h (two_pow_lt_zpow (by decide) (by norm_num)).not_ge
  | kept _ _ _ hr _ => exact ⟨_, _, _, rfl, hr⟩
  | refused _ hwhy _ =>
    rcases hwhy with h | h | ⟨h, -⟩
    · exact absurd h hnine.not_ge
    · exact absurd h hone.not_ge
    · exact absurd h (by decide)

/-- **A small power is zero.** -/
theorem not_every_power_kept : ¬ ∀ (e : Expr Float) (q p : Quantity Float) (a : Rat) (n : Int),
    Expr.eval .constants e = .ok q → toRat? q.mantissa = some a → a ≠ 0 → p.dim = 1 →
    toRat? p.value = some (n : Rat) →
    (∃ c, q.pow p = .error (.calc c) ∧ c.kind = .domain) ∨
      ∃ r m, q.pow p = .ok r ∧ toRat? r.mantissa = some m ∧ m ≠ 0 := by
  intro h
  have hmantissa : toRat? (ofScalar (Scalar.ofNat 2 : Float)).mantissa = some 2 := by
    decide +kernel
  have heval : Expr.eval .constants (.literal (ofScalar (Scalar.ofNat 2))) =
      .ok (ofScalar (Scalar.ofNat 2 : Float)) := by
    rw [Expr.eval]
    exact Shifted.normalize_eq_self (m := 2) (μ := 1)
      ⟨hmantissa, toRat?_ofNat_one, by norm_num, by norm_num, le_rfl, by norm_num⟩
      (by norm_num) (by norm_num)
  have hexponent : toRat? (ofScalar (-(Scalar.ofNat 1100) : Float)).value =
      some ((-1100 : Int) : Rat) := by
    decide +kernel
  have houtcome := pow_outcome hmantissa (by norm_num) toRat?_ofNat_one one_ne_zero rfl hexponent
  have htwo : |(2 : Rat)| ^ (-1100 : Int) < 2 ^ (-1076 : Int) := by
    rw [abs_two]
    exact zpow_lt_zpow_right₀ (by norm_num) (by norm_num)
  have hlarge : (1 : Rat) < 2 ^ (1021 : Int) := one_lt_zpow₀ (by norm_num) (by norm_num)
  have hsmall : (2 : Rat) ^ (-1076 : Int) < 1 := zpow_lt_one_of_neg₀ (by norm_num) (by norm_num)
  have hpower := h _ _ _ _ _ heval hmantissa (by norm_num) rfl hexponent
  generalize (ofScalar (Scalar.ofNat 2 : Float)).pow _ = o at houtcome hpower
  cases houtcome with
  | kept _ h => exact absurd h htwo.not_gt
  | unitVanished h =>
    obtain ⟨c, hc, -⟩ | ⟨r, m, hr, -⟩ := hpower
    · cases hc
    · cases hr
  | vanished _ _ hr =>
    obtain ⟨c, hc, -⟩ | ⟨r, m, hr', hm, hm0⟩ := hpower
    · cases hc
    · cases hr'
      exact hm0 (Option.some.inj (hm.symm.trans hr))
  | refused _ hwhy _ =>
    rcases hwhy with h | h | ⟨h, -⟩
    · exact absurd (hlarge.trans_le h) (htwo.trans hsmall).not_gt
    · rw [abs_one, one_zpow] at h
      exact absurd h hlarge.not_ge
    · exact absurd h (by decide)

end Quantity
end Mensura
