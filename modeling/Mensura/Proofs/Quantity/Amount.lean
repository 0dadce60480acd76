import Mensura.Proofs.Outcome
import Mensura.Proofs.Scalar.Exact
import Mensura.Quantity

/-!
# What quantities stand for

An `Amount` is a dimension and a rational number of base units, with the plain arithmetic of
dimensional analysis: no mantissas, no exponents, no scales.  A quantity over exact scalars stands
for the amount of its value.

Every operation of quantities agrees with that of amounts: it fails where that does, and else the
result stands for the amount that should come out.  Rescaling for a sum, carrying, and moving
powers of ten between mantissa, multiplier and exponent thus never change a value.
-/

set_option autoImplicit false

namespace Mensura

/-- A dimension with a number of base units. -/
@[ext] structure Amount where
  dim : Dimension
  value : Rat
  deriving DecidableEq

/-- Why an arithmetic operation on amounts has no result. -/
inductive Refusal
  /-- A sum or difference of different dimensions. -/
  | unequalDimensions
  | divisionByZero
  /-- The power zero of a dimension. -/
  | zeroPower
  | zeroToNegativePower
  | undefinedName
  /-- An expression that is not made of the operations of this arithmetic. -/
  | otherExpression
  deriving DecidableEq

namespace Amount

/-- The sum of two amounts of one dimension. -/
def add (a b : Amount) : Except Refusal Amount :=
  if a.dim = b.dim then .ok ⟨a.dim, a.value + b.value⟩ else .error .unequalDimensions

/-- The difference of two amounts of one dimension. -/
def sub (a b : Amount) : Except Refusal Amount :=
  if a.dim = b.dim then .ok ⟨a.dim, a.value - b.value⟩ else .error .unequalDimensions

/-- The negative of an amount. -/
def neg (a : Amount) : Amount :=
  ⟨a.dim, -a.value⟩

/-- The product of two amounts. -/
def mul (a b : Amount) : Amount :=
  ⟨a.dim * b.dim, a.value * b.value⟩

/-- The quotient of two amounts. -/
def div (a b : Amount) : Except Refusal Amount :=
  if b.value = 0 then .error .divisionByZero else .ok ⟨a.dim / b.dim, a.value / b.value⟩

/-- An integer power of an amount.  The power zero of zero is zero. -/
def power (a : Amount) (n : Int) : Except Refusal Amount :=
  if n = 0 ∧ a.dim ≠ 1 then .error .zeroPower
  else if a.value = 0 then
    if n < 0 then .error .zeroToNegativePower else .ok ⟨a.dim.pow n, 0⟩
  else .ok ⟨a.dim.pow n, a.value ^ n⟩

protected theorem mul_assoc (a b c : Amount) : (a.mul b).mul c = a.mul (b.mul c) := by
  ext x
  · simp only [mul, Dimension.exponent_mul]
    exact add_assoc _ _ _
  · exact mul_assoc a.value b.value c.value

end Amount

/-- The error that a refusal is reported with.  A fault takes its place if the message would show
a dimension that is too long to be written. -/
inductive Refusal.ShownAs : Refusal → Failure → Prop
  | sum {a b : Dimension} : ShownAs .unequalDimensions (.calc (.cannotAdd a b))
  | difference {a b : Dimension} : ShownAs .unequalDimensions (.calc (.cannotSubtract a b))
  | longDimensions {f : Fault} : ShownAs .unequalDimensions (.fault f)
  | division : ShownAs .divisionByZero (.calc .divisionByZero)
  | zeroPower {unit : String} : ShownAs .zeroPower (.calc (.unitToZero unit))
  | longUnit {f : Fault} : ShownAs .zeroPower (.fault f)
  | zeroToNegativePower : ShownAs .zeroToNegativePower (.calc .zeroToNegativePower)
  | undefinedName {name : String} : ShownAs .undefinedName (.calc (.undefinedSymbol name))

/-- The amount of one of a unit. -/
def PhysUnit.amount (u : PhysUnit Rat) : Amount :=
  ⟨u.dim, u.multiplier * 10 ^ u.decExp⟩

/-- The amount that a quantity stands for. -/
def Quantity.amount (q : Quantity Rat) : Amount :=
  ⟨q.dim, q.mantissa * q.unit.multiplier * 10 ^ q.unit.decExp⟩

/-- A calculation agrees with one on amounts: both succeed and the quantity stands for the amount,
or both fail and the error says why. -/
inductive Agrees : Result (Quantity Rat) → Except Refusal Amount → Prop
  | ok {q : Quantity Rat} : Agrees (.ok q) (.ok q.amount)
  | error {e : Failure} {refusal : Refusal} : refusal.ShownAs e → Agrees (.error e) (.error refusal)

theorem agrees_of_eq {r : Result (Quantity Rat)} {q : Quantity Rat} {a : Amount} (hr : r = .ok q)
    (ha : q.amount = a) : Agrees r (.ok a) := by
  rw [hr, ← ha]
  exact .ok

/-- Agreement goes through a chain of steps. -/
theorem Agrees.bind {r : Result (Quantity Rat)} {x : Except Refusal Amount}
    {f : Quantity Rat → Result (Quantity Rat)} {g : Amount → Except Refusal Amount}
    (h : Agrees r x) (hstep : ∀ q, Agrees (f q) (g q.amount)) : Agrees (r >>= f) (x >>= g) := by
  cases h with
  | ok => exact hstep _
  | error hshown => exact .error hshown

/-! ## Units -/

namespace PhysUnit

theorem multiplier_ne_zero (u : PhysUnit Rat) : u.multiplier ≠ 0 :=
  Exact.isFactor_iff.mp u.isFactor

theorem ofParts_eq {dim : Dimension} {decExp : Int} {m : Rat} (hm : m ≠ 0) :
    ofParts dim decExp m = .ok ⟨dim, decExp, m, Exact.isFactor_iff.mpr hm⟩ :=
  dif_pos (Exact.isFactor_iff.mpr hm)

theorem amount_value_ne_zero (u : PhysUnit Rat) : u.amount.value ≠ 0 :=
  mul_ne_zero u.multiplier_ne_zero (zpow_ne_zero _ (by norm_num))

/-- Units multiply. -/
theorem mul_amount (u v : PhysUnit Rat) :
    ∃ w, u.mul v = .ok w ∧ w.dim = u.dim * v.dim ∧
      w.amount.value = u.amount.value * v.amount.value := by
  refine ⟨_, ofParts_eq (mul_ne_zero u.multiplier_ne_zero v.multiplier_ne_zero), rfl, ?_⟩
  change u.multiplier * v.multiplier * 10 ^ (u.decExp + v.decExp) =
    u.multiplier * 10 ^ u.decExp * (v.multiplier * 10 ^ v.decExp)
  rw [zpow_add₀ (by norm_num)]
  ring

/-- Units divide. -/
theorem div_amount (u v : PhysUnit Rat) :
    ∃ w, u.div v = .ok w ∧ w.dim = u.dim / v.dim ∧
      w.amount.value = u.amount.value / v.amount.value := by
  refine ⟨_, ofParts_eq (div_ne_zero u.multiplier_ne_zero v.multiplier_ne_zero), rfl, ?_⟩
  change u.multiplier / v.multiplier * 10 ^ (u.decExp - v.decExp) =
    u.multiplier * 10 ^ u.decExp / (v.multiplier * 10 ^ v.decExp)
  rw [zpow_sub₀ (by norm_num), div_mul_div_comm]

/-- Units of plain numbers have all integer powers, other units all but the power zero. -/
theorem pow_amount {u : PhysUnit Rat} {n : Int} (h : n ≠ 0 ∨ u.dim = 1) :
    ∃ w, u.pow n = .ok w ∧ w.dim = u.dim.pow n ∧ w.amount.value = u.amount.value ^ n := by
  rw [pow]
  by_cases hn : n = 0
  · subst hn
    have hdim : u.dim = 1 := h.resolve_left (fun h ↦ h rfl)
    have hone : u.isDimensionless = true := by
      simp [isDimensionless, Dimension.isDimensionless, hdim]
    refine ⟨one, by simp [hone], ?_, ?_⟩
    · ext x
      simp [hdim, one, decimal]
    · change ((1 : Nat) : Rat) * 10 ^ (0 : Int) = u.amount.value ^ (0 : Int)
      simp
  · rw [if_neg hn]
    refine ⟨_, ofParts_eq (zpow_ne_zero n u.multiplier_ne_zero), rfl, ?_⟩
    change u.multiplier ^ n * 10 ^ (u.decExp * n) = (u.multiplier * 10 ^ u.decExp) ^ n
    rw [mul_zpow, zpow_mul]

theorem pow_zero_refused {u : PhysUnit Rat} (h : u.dim ≠ 1) :
    ∃ e, u.pow 0 = .error e ∧ Refusal.zeroPower.ShownAs e := by
  have hone : u.isDimensionless = false := by simp [isDimensionless, Dimension.isDimensionless, h]
  cases ht : u.text with
  | ok text => exact ⟨.calc (.unitToZero text), by simp [pow, hone, ht, fail], .zeroPower⟩
  | error f => exact ⟨.fault f, by simp [pow, hone, ht], .longUnit⟩

end PhysUnit

/-! ## Quantities -/

namespace Quantity

@[simp] theorem amount_dim (q : Quantity Rat) : q.amount.dim = q.dim := rfl

theorem amount_value (q : Quantity Rat) : q.amount.value = q.mantissa * q.unit.amount.value :=
  mul_assoc _ _ _

/-- A quantity is zero exactly if its mantissa is. -/
theorem amount_value_eq_zero {q : Quantity Rat} : q.amount.value = 0 ↔ q.mantissa = 0 := by
  rw [amount_value, mul_eq_zero, or_iff_left q.unit.amount_value_ne_zero]

/-- **Normal forms stand for the same.**  Signs and powers of ten only move. -/
theorem normalize_amount (q : Quantity Rat) : ∃ p, q.normalize = .ok p ∧ p.amount = q.amount := by
  rw [normalize]
  by_cases hzero : Scalar.isZero q.mantissa = true
  · exact ⟨q, if_pos hzero, rfl⟩
  rw [if_neg hzero, if_neg (by simp)]
  dsimp only
  -- The sign moves from the multiplier to the mantissa.
  obtain ⟨m, hm⟩ : ∃ m, m = if Scalar.lt q.unit.multiplier (Scalar.ofNat 0) = true then -q.mantissa
    else q.mantissa := ⟨_, rfl⟩
  obtain ⟨n, hn⟩ : ∃ n, n = if Scalar.lt q.unit.multiplier (Scalar.ofNat 0) = true
    then -q.unit.multiplier else q.unit.multiplier := ⟨_, rfl⟩
  have hprod : m * n = q.mantissa * q.unit.multiplier := by
    rw [hm, hn]
    split
    · exact neg_mul_neg _ _
    · rfl
  have hn0 : n ≠ 0 := by
    rw [hn]
    split
    · exact neg_ne_zero.mpr q.unit.multiplier_ne_zero
    · exact q.unit.multiplier_ne_zero
  rw [← hm, ← hn]
  -- Powers of ten move from both to the exponent.
  obtain ⟨k, hk⟩ : ∃ k, k = if Scalar.isOne n = true then 0 else Scalar.ilog10 n := ⟨_, rfl⟩
  have hscale : (if Scalar.isOne n = true then n else Scalar.scale10 n (-k)) = n * 10 ^ (-k) := by
    split
    · next hone => rw [hk, if_pos hone]; simp
    · next hone => rw [hk, if_neg hone]; rfl
  rw [← hk, hscale, PhysUnit.ofParts_eq (mul_ne_zero hn0 (zpow_ne_zero _ (by norm_num))), ok_bind]
  refine ⟨_, rfl, ?_⟩
  ext1
  · rfl
  · change m * 10 ^ (-Scalar.ilog10 m) * (n * 10 ^ (-k)) *
        10 ^ (q.unit.decExp + k + Scalar.ilog10 m) =
      q.mantissa * q.unit.multiplier * 10 ^ q.unit.decExp
    rw [Exact.shift_shift, hprod]

/-- A mantissa with a unit, brought to normal form, stands for their product. -/
theorem normalize_mk (m : Rat) (u : PhysUnit Rat) :
    ∃ p, normalize ⟨m, u⟩ = .ok p ∧ p.amount = ⟨u.dim, m * u.amount.value⟩ := by
  obtain ⟨p, hp, hamount⟩ := normalize_amount ⟨m, u⟩
  refine ⟨p, hp, hamount.trans ?_⟩
  ext1
  · rfl
  · exact amount_value _

/-! ### Signs, products and units -/

theorem neg_amount (q : Quantity Rat) : ∃ p, q.neg = .ok p ∧ p.amount = q.amount.neg := by
  obtain ⟨p, hp, hamount⟩ := normalize_mk (-q.mantissa) q.unit
  refine ⟨p, hp, hamount.trans ?_⟩
  ext1
  · rfl
  · change -q.mantissa * q.unit.amount.value = -q.amount.value
    rw [amount_value, neg_mul]

theorem mul_amount (a b : Quantity Rat) :
    ∃ p, a.mul b = .ok p ∧ p.amount = a.amount.mul b.amount := by
  obtain ⟨w, hw, hdim, hvalue⟩ := a.unit.mul_amount b.unit
  obtain ⟨p, hp, hamount⟩ := normalize_mk (a.mantissa * b.mantissa) w
  refine ⟨p, by rw [mul, hw, ok_bind]; exact hp, hamount.trans ?_⟩
  ext1
  · exact hdim
  · change a.mantissa * b.mantissa * w.amount.value = a.amount.value * b.amount.value
    rw [hvalue, amount_value, amount_value]
    ring

/-- Attaching a unit multiplies by it. -/
theorem withUnit_amount (q : Quantity Rat) (u : PhysUnit Rat) :
    ∃ p, q.withUnit u = .ok p ∧ p.amount = q.amount.mul u.amount := by
  obtain ⟨w, hw, hdim, hvalue⟩ := q.unit.mul_amount u
  obtain ⟨p, hp, hamount⟩ := normalize_mk q.mantissa w
  refine ⟨p, by rw [withUnit, hw, ok_bind]; exact hp, hamount.trans ?_⟩
  ext1
  · exact hdim
  · change q.mantissa * w.amount.value = q.amount.value * u.amount.value
    rw [hvalue, amount_value, mul_assoc]

theorem div_agrees (a b : Quantity Rat) : Agrees (a.div b) (a.amount.div b.amount) := by
  rw [div, Amount.div]
  by_cases hb : b.mantissa = 0
  · rw [if_pos (Exact.isZero_iff.mpr hb), if_pos (amount_value_eq_zero.mpr hb)]
    exact .error .division
  · rw [if_neg (Exact.isZero_iff.not.mpr hb), if_neg (amount_value_eq_zero.not.mpr hb)]
    obtain ⟨w, hw, hdim, hvalue⟩ := a.unit.div_amount b.unit
    obtain ⟨p, hp, hamount⟩ := normalize_mk (a.mantissa / b.mantissa) w
    refine agrees_of_eq (by rw [hw, ok_bind]; exact hp) (hamount.trans ?_)
    ext1
    · exact hdim
    · change a.mantissa / b.mantissa * w.amount.value = a.amount.value / b.amount.value
      rw [hvalue, amount_value, amount_value, div_mul_div_comm]

/-! ### Sums -/

/-- Where the quantity is as large as before in the scale of any unit. -/
theorem aligned_value (ref : PhysUnit Rat) (q : Quantity Rat) :
    aligned ref q * ref.amount.value = q.amount.value := by
  have hten : (10 : Rat) ≠ 0 := by norm_num
  have href := ref.multiplier_ne_zero
  change q.mantissa * 10 ^ (q.unit.decExp - ref.decExp) * (q.unit.multiplier / ref.multiplier) *
      (ref.multiplier * 10 ^ ref.decExp) = q.mantissa * q.unit.multiplier * 10 ^ q.unit.decExp
  rw [zpow_sub₀ hten]
  field_simp

/-- A sum computed in the scale of a unit stands for what it is of that unit, with the carry or
without. -/
theorem ofAligned_amount (dim : Dimension) (ref : PhysUnit Rat) (num : Rat) :
    ∃ p, ofAligned dim ref num = .ok p ∧ p.amount = ⟨dim, num * ref.amount.value⟩ := by
  unfold ofAligned
  dsimp only
  generalize (!Scalar.isZero num && Scalar.isFinite num &&
    !Scalar.lt (Scalar.abs num) (Scalar.ofNat 10)) = carries
  obtain ⟨k, hk⟩ : ∃ k, k = if carries = true then Scalar.ilog10 num else 0 := ⟨_, rfl⟩
  have hnum : (if carries = true then Scalar.scale10 num (-k) else num) = num * 10 ^ (-k) := by
    split
    · rfl
    · next hc => rw [hk, if_neg hc]; simp
  rw [← hk, hnum, PhysUnit.ofParts_eq ref.multiplier_ne_zero, ok_bind]
  obtain ⟨p, hp, hamount⟩ := normalize_amount ⟨num * 10 ^ (-k),
    ⟨dim, ref.decExp + k, ref.multiplier, Exact.isFactor_iff.mpr ref.multiplier_ne_zero⟩⟩
  refine ⟨p, hp, hamount.trans ?_⟩
  ext1
  · rfl
  · change num * 10 ^ (-k) * ref.multiplier * 10 ^ (ref.decExp + k) =
      num * (ref.multiplier * 10 ^ ref.decExp)
    rw [zpow_add₀ (by norm_num), zpow_neg]
    field_simp

/-- Different dimensions are refused, whether or not the message can be written. -/
theorem mismatch_agrees (error : Dimension → Dimension → CalcError)
    (herror : ∀ a b, Refusal.unequalDimensions.ShownAs (.calc (error a b))) (a b : Quantity Rat) :
    Agrees (mismatch error a b) (.error .unequalDimensions) := by
  rw [mismatch]
  cases ha : a.dim.checkWritable with
  | error f => exact .error .longDimensions
  | ok _ =>
    cases hb : b.dim.checkWritable with
    | error f => exact .error .longDimensions
    | ok _ => exact .error (herror a.dim b.dim)

theorem add_agrees (a b : Quantity Rat) : Agrees (a.add b) (a.amount.add b.amount) := by
  rw [add, Amount.add]
  rw [amount_dim, amount_dim]
  by_cases hdim : a.dim = b.dim
  · obtain ⟨p, hp, hamount⟩ := ofAligned_amount a.dim (reference a b)
      (aligned (reference a b) a + aligned (reference a b) b)
    rw [if_pos hdim, if_pos hdim]
    refine agrees_of_eq hp ?_
    rw [hamount, add_mul, aligned_value, aligned_value]
  · rw [if_neg hdim, if_neg hdim]
    exact mismatch_agrees .cannotAdd (fun _ _ ↦ .sum) a b

theorem sub_agrees (a b : Quantity Rat) : Agrees (a.sub b) (a.amount.sub b.amount) := by
  rw [sub, Amount.sub]
  rw [amount_dim, amount_dim]
  by_cases hdim : a.dim = b.dim
  · obtain ⟨p, hp, hamount⟩ := ofAligned_amount a.dim (reference a b)
      (aligned (reference a b) a - aligned (reference a b) b)
    rw [if_pos hdim, if_pos hdim]
    refine agrees_of_eq hp ?_
    rw [hamount, sub_mul, aligned_value, aligned_value]
  · rw [if_neg hdim, if_neg hdim]
    exact mismatch_agrees .cannotSubtract (fun _ _ ↦ .difference) a b

/-! ### Powers -/

theorem powInt_agrees (q : Quantity Rat) (n : Int) : Agrees (q.powInt n) (q.amount.power n) := by
  rw [powInt, Amount.power]
  by_cases hzero : n = 0 ∧ q.amount.dim ≠ 1
  · obtain ⟨rfl, hdim⟩ := hzero
    obtain ⟨e, he, hshown⟩ := PhysUnit.pow_zero_refused (u := q.unit) hdim
    rw [if_pos ⟨rfl, hdim⟩, he]
    exact .error hshown
  rw [if_neg hzero]
  obtain ⟨w, hw, hdim, hvalue⟩ := PhysUnit.pow_amount (u := q.unit) (n := n)
    (by rwa [ne_eq, not_and_or, not_not] at hzero)
  rw [hw, ok_bind]
  by_cases hm : q.mantissa = 0
  · rw [if_pos (Exact.isZero_iff.mpr hm), if_pos (amount_value_eq_zero.mpr hm)]
    split
    · exact .error .zeroToNegativePower
    · refine agrees_of_eq rfl ?_
      ext1
      · exact hdim
      · change ((0 : Nat) : Rat) * w.multiplier * 10 ^ w.decExp = 0
        simp
  · rw [if_neg (Exact.isZero_iff.not.mpr hm), if_neg (amount_value_eq_zero.not.mpr hm)]
    obtain ⟨p, hp, hamount⟩ := normalize_mk (q.mantissa ^ n) w
    refine agrees_of_eq hp (hamount.trans ?_)
    ext1
    · exact hdim
    · change q.mantissa ^ n * w.amount.value = q.amount.value ^ n
      rw [hvalue, amount_value, mul_zpow]

/-- A power whose exponent is a plain integer is the integer power. -/
theorem pow_agrees (q p : Quantity Rat) {n : Int} (hdim : p.amount.dim = 1)
    (hvalue : p.amount.value = n) : Agrees (q.pow p) (q.amount.power n) := by
  have hplain : p.isDimensionless = true := decide_eq_true hdim
  have hint : Scalar.toInt? p.value = some n := Exact.toInt?_eq_some.mpr hvalue
  have hpow : q.pow p = q.powInt n := by
    simp [pow, hplain, hint]
  rw [hpow]
  exact powInt_agrees q n

end Quantity

end Mensura
