import Mensura.Dimension.Text
import Mensura.Scalar

/-!
# Units

A `PhysUnit` is a dimension with a scale: `multiplier · 10 ^ decExp` of the base unit.  The
kilometre is `10 ^ 3` metres, the hour `3.6 · 10 ^ 3` seconds.  Keeping the power of ten apart
keeps prefixes exact.

The multiplier is finite and not zero, which the type guarantees; an operation whose multiplier
leaves that range fails.
-/

set_option autoImplicit false

namespace Mensura

/-- A dimension and a scale. -/
structure PhysUnit (α : Type) [Scalar α] where
  dim : Dimension
  decExp : Int
  multiplier : α
  isFactor : Scalar.isFactor multiplier = true

namespace PhysUnit

variable {α : Type} [Scalar α]

/-- The unit with the given parts, if the multiplier can scale anything. -/
def ofParts (dim : Dimension) (decExp : Int) (multiplier : α) : Result (PhysUnit α) :=
  if h : Scalar.isFactor multiplier = true then .ok ⟨dim, decExp, multiplier, h⟩
  else .error (.fault .multiplier)

/-- `10 ^ decExp` of a dimension's base unit. -/
def decimal (dim : Dimension) (decExp : Int) : PhysUnit α :=
  ⟨dim, decExp, Scalar.ofNat 1, Scalar.isFactor_one⟩

/-- The unit of plain numbers. -/
def one : PhysUnit α :=
  decimal 1 0

/-- Whether the unit belongs to a plain number. -/
def isDimensionless (u : PhysUnit α) : Bool :=
  u.dim.isDimensionless

/-- Whether two units measure the same dimension. -/
def isCompatible (u v : PhysUnit α) : Bool :=
  u.dim = v.dim

/-- Whether two units are the same: dimension and power of ten exactly, multipliers closely. -/
def same (u v : PhysUnit α) : Bool :=
  u.dim = v.dim && u.decExp = v.decExp && Scalar.close u.multiplier v.multiplier

/-- The size of the unit in base units. -/
def scale (u : PhysUnit α) : α :=
  Scalar.scale10 u.multiplier u.decExp

/-- The scale and the base units, as far as there are any. -/
def text (u : PhysUnit α) : Except Fault String := do
  let parts := if Scalar.isOne u.scale then [] else [Scalar.displayText u.scale]
  let dims ← u.dim.text
  return " ".intercalate (parts ++ if dims.isEmpty then [] else [dims])

/-- All parts of the unit by name. -/
def code (u : PhysUnit α) : Except Fault String := do
  let dim ← u.dim.code
  let decExp ← Text.integerText u.decExp
  return "Unit(" ++ dim ++ ", dec_exp=" ++ decExp ++ ", multiplier=" ++
    Scalar.text u.multiplier ++ ")"

/-- The product of two units. -/
def mul (u v : PhysUnit α) : Result (PhysUnit α) :=
  ofParts (u.dim * v.dim) (u.decExp + v.decExp) (u.multiplier * v.multiplier)

/-- The quotient of two units. -/
def div (u v : PhysUnit α) : Result (PhysUnit α) :=
  ofParts (u.dim / v.dim) (u.decExp - v.decExp) (u.multiplier / v.multiplier)

/-- The integer power of a unit.  The power zero has a meaning for plain numbers only: it does
not say which scale a length should be left with. -/
def pow (u : PhysUnit α) (n : Int) : Result (PhysUnit α) := do
  if n = 0 then
    if u.isDimensionless then return one else fail (.unitToZero (← u.text))
  else
    match Scalar.powInt u.multiplier n with
    | some m => ofParts (u.dim.pow n) (u.decExp * n) m
    | none => fail (.unitScaleOverflow (← u.text) (← Text.integerText n))

/-- `10 ^ n` times the unit. -/
def shifted (u : PhysUnit α) (n : Int) : PhysUnit α :=
  { u with decExp := u.decExp + n }

/-- The same unit with a multiplier between one and ten. -/
def normalized (u : PhysUnit α) : Result (PhysUnit α) :=
  if Scalar.isOne (Scalar.abs u.multiplier) then .ok u
  else
    let k := Scalar.ilog10 u.multiplier
    if k = 0 then .ok u
    else ofParts u.dim (u.decExp + k) (Scalar.scale10 u.multiplier (-k))

end PhysUnit
end Mensura
