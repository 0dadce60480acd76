import Mensura.Quantity
import Mensura.Registry.Standard
import Mensura.Typeset.Unit

/-!
# Typesetting quantities

A quantity is displayed in one of three ways:

* with a `UnitHint`, as a number of the hinted unit;
* in scientific notation, as a number, a power of ten and the base units;
* otherwise with the power of ten folded into the first unit as a prefix, from milli to kilo,
  and the rest of it into the number.

Numbers have a given number of decimal places.
-/

set_option autoImplicit false

namespace Mensura

/-- The unit to display a value in, and how the unit is written. -/
structure UnitHint (α : Type) [Scalar α] where
  unit : PhysUnit α
  label : String

/-- How values are displayed. -/
structure Format (α : Type) [Scalar α] where
  hint : Option (UnitHint α) := none
  digits : Int := 3
  scientific : Bool := false

namespace UnitHint

variable {α : Type} [Scalar α]

/-- The hint that a unit expression gives. -/
def ofText (r : Registry α) (text : String) : Result (UnitHint α) := do
  let e ← UnitExpr.ofText text
  return ⟨← r.eval e, e.label⟩

end UnitHint

namespace Typeset

variable {α : Type} [Scalar α]

/-! ## Numbers -/

/-- The largest number of decimal places that can be asked for, and the largest that can be
counted. -/
def largestPrecision : Int := 0x7FFFFFFF
def largestCount : Int := 0x7FFFFFFFFFFFFFFF

/-- A number with a fixed number of decimal places, which has to be a number that can itself be
written. -/
def fixed (digits : Int) (x : α) : Except Fault String :=
  if !Text.isWritable digits then .error .integerTooLarge
  else if digits < 0 then .error .negativePrecision
  else if largestCount < digits then .error .precisionTooLong
  else if largestPrecision < digits then .error .precisionTooBig
  else .ok ((Scalar.reading x).fixed digits.toNat)

/-- A number as short as fifteen significant digits allow. -/
def number (x : α) : String :=
  if Scalar.isZero x then "0"
  else
    match (Scalar.reading x).generalParts 15 with
    | (mantissa, some e) => mantissa ++ " \\times " ++ tenPower (toString e)
    | (mantissa, none) => mantissa

/-! ## Quantities -/

/-- The largest power of ten that is shown as a prefix, on either side of one. -/
def largestPrefixPower : Int := 3

/-- The power of ten of the prefix for a power of ten of the whole: the quotient by the exponent
of the factor that carries it, towards zero, within milli and kilo. -/
def prefixPower (decExp : Int) (p : Rat) : Int :=
  let quotient := (decExp : Rat) / p
  let d := Int.tdiv quotient.num quotient.den
  max (-largestPrefixPower) (min largestPrefixPower d)

/-- A dimensioned quantity with a prefix.  `p` is the exponent of its first factor. -/
def withPrefix (digits : Int) (q : Quantity α) (p : Rat) : Result String := do
  let scaled := q.mantissa * q.unit.multiplier
  let d := prefixPower q.unit.decExp p
  let shift := (d : Rat) * p
  let shown ←
    if shift.den = 1 then .ok (Scalar.scale10 scaled (q.unit.decExp - shift.num))
    else
      match Scalar.scaleByFraction scaled q.unit.decExp shift with
      | some x => .ok x
      | none => .error (.fault .outOfRange)
  let symbol := if d = 0 then "" else (MetricPrefix.symbol? d).getD ""
  return (← fixed digits shown) ++ " \\ " ++ (← prefixed symbol q.dim)

/-- A quantity in the unit of a hint. -/
def hinted (f : Format α) (hint : UnitHint α) (q : Quantity α) : Result String := do
  if hint.unit.dim = q.dim then
    let value := Scalar.scale10 (q.mantissa * q.unit.multiplier / hint.unit.multiplier)
      (q.unit.decExp - hint.unit.decExp)
    let k := if f.scientific && !Scalar.isZero value && Scalar.isFinite value then
        Scalar.ilog10 value
      else 0
    if k = 0 then return Text.trim ((← fixed f.digits value) ++ " \\ " ++ hint.label)
    else
      let coefficient ← fixed f.digits (Scalar.scale10 value (-k))
      return Text.trim (coefficient ++ " \\times " ++ tenPower (toString k) ++ " \\ " ++ hint.label)
  else
    q.dim.checkWritable
    fail (.hintMismatch hint.label q.dim)

/-- A quantity as a number and a power of ten of its base units, without the base units. -/
def scaled (digits : Int) (q : Quantity α) : Except Fault String := do
  let number ← fixed digits (q.mantissa * q.unit.multiplier)
  return number ++ "\\times " ++ tenPower (← Text.integerText q.unit.decExp)

/-- A quantity in base units. -/
def inBaseUnits (f : Format α) (q : Quantity α) : Result String := do
  match q.dim.factors with
  | [] =>
    if f.scientific && q.unit.decExp ≠ 0 then scaled f.digits q
    else fixed f.digits q.value
  | (_, p) :: _ =>
    if f.scientific && q.unit.decExp ≠ 0 then
      return (← scaled f.digits q) ++ " \\ " ++ (← dimension q.dim)
    else withPrefix f.digits q p

/-- A quantity as a format asks for it. -/
def quantity (f : Format α) (q : Quantity α) : Result String :=
  match f.hint with
  | some hint => hinted f hint q
  | none => inBaseUnits f q

end Typeset
end Mensura
