import Mensura.Dimension.Text
import Mensura.UnitExpr

/-!
# Typesetting dimensions

A dimension as a fraction of base unit symbols: positive exponents above the line, negative ones
below it without their sign.
-/

set_option autoImplicit false

namespace Mensura
namespace Typeset

/-- A text between braces. -/
def group (s : String) : String :=
  "\x7b" ++ s ++ "\x7d"

/-- A fraction. -/
def frac (top bottom : String) : String :=
  "\\frac" ++ group top ++ group bottom

/-- A power of ten, given the text of its exponent. -/
def tenPower (e : String) : String :=
  "10^" ++ group e

/-- An exponent: an integer, or numerator and denominator with a slash. -/
def exponent (r : Rat) : String :=
  if r.den = 1 then toString r.num else toString r.num ++ "/" ++ toString r.den

/-- One factor with the absolute value of its exponent. -/
def factor (symbol : String) (r : Rat) : String :=
  let size := Rat.abs r
  if size = 1 then symbol else symbol ++ "^" ++ group (exponent size)

/-- The factors of a dimension, the first with a prefix on its symbol, if there is one. -/
def factors (first : String) (d : Dimension) : List (String × Rat) :=
  match d.factors with
  | [] => []
  | (b, r) :: rest =>
    let symbol := if first.isEmpty then b.symbol else UnitExpr.nameLabel (first ++ b.symbol)
    (symbol, r) :: rest.map fun f ↦ (f.1.symbol, f.2)

/-- Factors above the line and below it. -/
def layout (fs : List (String × Rat)) : String :=
  let join := fun side ↦ "\\,".intercalate (side.map fun (symbol, r) ↦ factor symbol r)
  let top := join (fs.filter fun f ↦ 0 < f.2)
  let below := fs.filter fun f ↦ f.2 < 0
  if below.isEmpty then top
  else frac (if top.isEmpty then "1" else top) (join below)

/-- A dimension in base units, the first with a prefix, if there is one; empty for a plain
number. -/
def prefixed (first : String) (d : Dimension) : Except Fault String := do
  d.checkWritable
  return layout (factors first d)

/-- A dimension in base units; empty for a plain number. -/
def dimension (d : Dimension) : Except Fault String :=
  prefixed "" d

end Typeset
end Mensura
