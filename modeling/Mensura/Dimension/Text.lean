import Mensura.Dimension
import Mensura.Text.Integer

/-!
# Dimensions as text

The texts of a dimension hold its exponents, so they exist only where every exponent is short
enough to be written.
-/

set_option autoImplicit false

namespace Mensura
namespace Dimension

/-- Whether every exponent is short enough to be written. -/
def isWritable (d : Dimension) : Bool :=
  d.toList.all fun r ↦ Text.isWritable r.num && Text.isWritable r.den

/-- A fault unless the dimension can be written. -/
def checkWritable (d : Dimension) : Except Fault PUnit :=
  if d.isWritable then .ok ⟨⟩ else .error .integerTooLarge

/-- The base units of the dimension. -/
def text (d : Dimension) : Except Fault String := do
  d.checkWritable
  return d.baseUnits

/-- The base dimensions between brackets. -/
def code (d : Dimension) : Except Fault String := do
  d.checkWritable
  return d.brackets

end Dimension
end Mensura
