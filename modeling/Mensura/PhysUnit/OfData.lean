import Mensura.Datum
import Mensura.PhysUnit

/-!
# Units from data

A unit given by its parts, whose exponents come in whatever kind a caller holds them.
-/

set_option autoImplicit false

namespace Mensura

/-- The dimension with a list of exponents. -/
def Dimension.ofData (exponents : List Rat) : Except Fault Dimension :=
  match Dimension.ofList? exponents with
  | some d => .ok d
  | none => .error (.wrongDimensionCount exponents.length)

/-- The power of a dimension to a datum. -/
def Dimension.powDatum (d : Dimension) (n : Datum) : Except Fault Dimension := do
  return d.pow (← n.dimensionExponent)

namespace PhysUnit

variable {α : Type} [Scalar α]

/-- The unit with the given parts, checked one after the other. -/
def ofData (exponents : List Rat) (decExp : Datum) (multiplier : α) : Result (PhysUnit α) := do
  let dim ← Dimension.ofData exponents
  let unit ← ofParts dim 0 multiplier
  return unit.shifted (← decExp.decimalExponent)

/-- The power of a unit to a datum. -/
def powDatum (u : PhysUnit α) (n : Datum) : Result (PhysUnit α) := do
  u.pow (← n.unitExponent)

end PhysUnit
end Mensura
