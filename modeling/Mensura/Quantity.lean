import Mensura.PhysUnit

/-!
# Quantities

A `Quantity` is a mantissa with a unit; its value is `mantissa · multiplier · 10 ^ decExp` in
base units.  `normalize` moves every power of ten into the unit's exponent, so that

* the mantissa is zero or lies between one and ten,
* the multiplier is positive and lies between one and ten.

A zero stays as it is, with whatever scale its unit has.  Sums line their operands up on decimal
exponents, so `5 kg + 4 g` never multiplies anything out to base units.
-/

set_option autoImplicit false

namespace Mensura

/-- A number of units. -/
structure Quantity (α : Type) [Scalar α] where
  mantissa : α
  unit : PhysUnit α

namespace Quantity

variable {α : Type} [Scalar α]

/-- A plain number. -/
def ofScalar (x : α) : Quantity α :=
  ⟨x, PhysUnit.one⟩

/-- The dimension of a quantity. -/
def dim (q : Quantity α) : Dimension :=
  q.unit.dim

/-- Whether the quantity is a plain number. -/
def isDimensionless (q : Quantity α) : Bool :=
  q.unit.isDimensionless

/-- The value in base units. -/
def value (q : Quantity α) : α :=
  Scalar.scale10 (q.mantissa * q.unit.multiplier) q.unit.decExp

/-- The value and the base units. -/
def text (q : Quantity α) : Except Fault String := do
  let dims ← q.dim.text
  let number := Scalar.displayText q.value
  return if dims.isEmpty then number else number ++ " " ++ dims

/-- All parts of the quantity by name. -/
def code (q : Quantity α) : Except Fault String := do
  return "Quantity(" ++ Scalar.text q.mantissa ++ ", " ++ (← q.unit.code) ++ ")"

/-- Whether two quantities have the same dimension and closely the same value. -/
def same (a b : Quantity α) : Bool :=
  a.dim = b.dim && Scalar.close a.value b.value

/-- Moves the sign into the mantissa and every power of ten into the exponent. -/
def normalize (q : Quantity α) : Result (Quantity α) :=
  if Scalar.isZero q.mantissa then .ok q
  else if !Scalar.isFinite q.mantissa then fail (.notFinite (Scalar.text q.mantissa))
  else do
    let negative := Scalar.lt q.unit.multiplier (Scalar.ofNat 0)
    let mantissa := if negative then -q.mantissa else q.mantissa
    let multiplier := if negative then -q.unit.multiplier else q.unit.multiplier
    let k := if Scalar.isOne multiplier then 0 else Scalar.ilog10 multiplier
    let multiplier := if Scalar.isOne multiplier then multiplier
      else Scalar.scale10 multiplier (-k)
    let l := Scalar.ilog10 mantissa
    let unit ← PhysUnit.ofParts q.dim (q.unit.decExp + k + l) multiplier
    return ⟨Scalar.scale10 mantissa (-l), unit⟩

/-- Gives a plain number a unit; a unit that is there already is multiplied. -/
def withUnit (q : Quantity α) (u : PhysUnit α) : Result (Quantity α) := do
  let unit ← q.unit.mul u
  normalize ⟨q.mantissa, unit⟩

/-! ## Sums -/

/-- The mantissa that the quantity would have with the scale of `ref`. -/
def aligned (ref : PhysUnit α) (q : Quantity α) : α :=
  Scalar.scale10 q.mantissa (q.unit.decExp - ref.decExp) *
    (q.unit.multiplier / ref.multiplier)

/-- The unit whose scale a sum is computed in: that with the larger exponent, of either sign. -/
def reference (a b : Quantity α) : PhysUnit α :=
  if a.unit.decExp.natAbs < b.unit.decExp.natAbs then b.unit else a.unit

/-- A mantissa in the scale of a unit, as a quantity of the given dimension.  A carry goes to
the exponent at once. -/
def ofAligned (dim : Dimension) (ref : PhysUnit α) (num : α) : Result (Quantity α) := do
  let carries := !Scalar.isZero num && Scalar.isFinite num &&
    !Scalar.lt (Scalar.abs num) (Scalar.ofNat 10)
  let carry := if carries then Scalar.ilog10 num else 0
  let unit ← PhysUnit.ofParts dim (ref.decExp + carry) ref.multiplier
  normalize ⟨if carries then Scalar.scale10 num (-carry) else num, unit⟩

/-- The error of two quantities that have different dimensions.  It shows both of them. -/
def mismatch (error : Dimension → Dimension → CalcError) (a b : Quantity α) :
    Result (Quantity α) := do
  a.dim.checkWritable
  b.dim.checkWritable
  fail (error a.dim b.dim)

/-- The sum of two quantities of one dimension. -/
def add (a b : Quantity α) : Result (Quantity α) :=
  if a.dim = b.dim then
    let ref := reference a b
    ofAligned a.dim ref (aligned ref a + aligned ref b)
  else mismatch .cannotAdd a b

/-- The difference of two quantities of one dimension. -/
def sub (a b : Quantity α) : Result (Quantity α) :=
  if a.dim = b.dim then
    let ref := reference a b
    ofAligned a.dim ref (aligned ref a - aligned ref b)
  else mismatch .cannotSubtract a b

/-! ## Products -/

/-- The negative of a quantity. -/
def neg (q : Quantity α) : Result (Quantity α) :=
  normalize ⟨-q.mantissa, q.unit⟩

/-- The product of two quantities. -/
def mul (a b : Quantity α) : Result (Quantity α) := do
  let unit ← a.unit.mul b.unit
  normalize ⟨a.mantissa * b.mantissa, unit⟩

/-- The quotient of two quantities; the divisor must not be zero. -/
def div (a b : Quantity α) : Result (Quantity α) :=
  if Scalar.isZero b.mantissa then fail .divisionByZero
  else do
    let unit ← a.unit.div b.unit
    normalize ⟨a.mantissa / b.mantissa, unit⟩

/-! ## Powers -/

/-- An integer power.  Zero to the power zero is zero. -/
def powInt (q : Quantity α) (n : Int) : Result (Quantity α) := do
  let unit ← q.unit.pow n
  if Scalar.isZero q.mantissa then
    if n < 0 then fail .zeroToNegativePower else return ⟨Scalar.ofNat 0, unit⟩
  else
    match Scalar.powInt q.mantissa n with
    | some m => normalize ⟨m, unit⟩
    | none => fail (.powerOverflow (← q.text) (← Text.integerText n))

/-- A fractional power, of quantities that are not negative.  The exponent is taken for the
fraction it stands for, so that the dimension stays exact. -/
def powFrac (q : Quantity α) (p : α) : Result (Quantity α) := do
  match Scalar.rationalize? p with
  | none => fail (.inexactExponent (Scalar.text p))
  | some r =>
    let base := q.mantissa * q.unit.multiplier
    if Scalar.lt base (Scalar.ofNat 0) then fail (.negativeBase (← q.text) (Scalar.text p))
    else if Scalar.isZero base then
      if Scalar.lt p (Scalar.ofNat 0) then fail .zeroToNegativePower
      else return ⟨Scalar.ofNat 0, PhysUnit.decimal (q.dim.pow r) 0⟩
    else
      match Scalar.powFrac base q.unit.decExp p with
      | .ok (m, e) => normalize ⟨m, PhysUnit.decimal (q.dim.pow r) e⟩
      | .error .overflow => fail (.powerOverflow (← q.text) (Scalar.text p))
      | .error .unboundedExponent => .error (.fault .outOfRange)

/-- A quantity to the power of another.  An exponent with a unit counts only if its mantissa and
its value are integers. -/
def pow (q p : Quantity α) : Result (Quantity α) := do
  if !p.isDimensionless && (Scalar.toInt? p.mantissa).isNone then
    fail (.exponentWithUnit (← p.text))
  else if !Scalar.isFinite p.value then fail (.exponentNotFinite (Scalar.text p.value))
  else
    match Scalar.toInt? p.value with
    | some n => q.powInt n
    | none =>
      if p.isDimensionless then q.powFrac p.value
      else fail (.fractionalExponentWithUnit (← p.text))

end Quantity
end Mensura
