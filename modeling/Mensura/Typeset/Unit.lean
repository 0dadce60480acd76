import Mensura.MetricPrefix
import Mensura.Typeset.Dimension

/-!
# Typesetting units

A unit is its dimension with a prefix on the first factor, if its scale is a power of ten that
has a prefix and that factor has the exponent one.  Otherwise the scale stands in front.
-/

set_option autoImplicit false

namespace Mensura
namespace Typeset

variable {α : Type} [Scalar α]

/-- The scale of a unit as a number and a power of ten, as far as they are not one. -/
def scale (u : PhysUnit α) : Except Fault String := do
  let number := if Scalar.isOne u.multiplier then [] else [Scalar.displayText u.multiplier]
  if u.decExp = 0 then return String.join number
  else
    let power := tenPower (← Text.integerText u.decExp)
    return " \\times ".intercalate (number ++ [power])

/-- A unit with its scale. -/
def unit (u : PhysUnit α) : Except Fault String := do
  match u.dim.factors with
  | [] => scale u
  | (_, first) :: _ =>
    let shown := if u.decExp = 0 then some ""
      else if first = 1 then MetricPrefix.symbol? u.decExp else none
    match if Scalar.isOne u.multiplier then shown else none with
    | some symbol => prefixed symbol u.dim
    | none => return (← scale u) ++ " \\ " ++ (← dimension u.dim)

end Typeset
end Mensura
