import Mensura.Expr
import Mensura.Formula
import Mensura.Typeset.Quantity

/-!
# Statements

What a line of a document says: declarations, values to print, settings of the display, raw LaTeX
and truth tables.
-/

set_option autoImplicit false

namespace Mensura

/-- The statements of the calculator's language. -/
inductive Statement (α : Type) [Scalar α]
  /-- `x = 5 kg` -/
  | declare (name : String) (value : Expr α)
  /-- `x * 2 = ? g` -/
  | print (value : Expr α) (hint : Option (UnitHint α))
  /-- `y = x / 2 = ? g` -/
  | declarePrint (name : String) (value : Expr α) (hint : Option (UnitHint α))
  /-- `alias th \theta`: how a name is displayed, and called, from now on. -/
  | rename (name latex : String)
  /-- `digits 4` -/
  | digits (count : Nat)
  /-- `scientific`: on, or off again. -/
  | scientific
  /-- `---` -/
  | gap
  /-- `ttable [p, q] [p and q]` -/
  | table (args : List String) (formulas : List Formula)
  /-- LaTeX between two fences of three quotes, as it is. -/
  | raw (text : String)

end Mensura
