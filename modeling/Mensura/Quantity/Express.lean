import Mensura.Quantity
import Mensura.Registry.Standard

/-!
# Quantities in a given unit

The plain-text counterpart of a unit hint: how many of a unit a quantity is.
-/

set_option autoImplicit false

namespace Mensura
namespace Quantity

variable {α : Type} [Scalar α]

/-- How many of a unit a quantity is. -/
def count (q : Quantity α) (u : PhysUnit α) : α :=
  Scalar.scale10 (q.mantissa * q.unit.multiplier / u.multiplier) (q.unit.decExp - u.decExp)

/-- The quantity as a number of the units that a unit expression stands for, with that text
behind it. -/
def textIn (q : Quantity α) (r : Registry α) (unit : String) : Result String := do
  let u ← r.eval (← UnitExpr.ofText unit)
  if u.dim = q.dim then return Scalar.displayText (q.count u) ++ " " ++ Text.trim unit
  else fail (.cannotExpress (← q.text) unit)

end Quantity
end Mensura
