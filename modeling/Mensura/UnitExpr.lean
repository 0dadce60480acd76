import Mensura.PhysUnit
import Mensura.Text.Blank

/-!
# Unit expressions

`kg*m/s^2` before anyone looks its names up: a tree of names, products, quotients and integer
powers.

* `eval` computes the unit, given what each name means;
* `label` is the LaTeX it is displayed with, which also keeps the names as written.
-/

set_option autoImplicit false

namespace Mensura

/-- An expression over unit names. -/
inductive UnitExpr
  | name (text : String)
  | pow (base : UnitExpr) (exponent : Int)
  | mul (left right : UnitExpr)
  | div (left right : UnitExpr)
  deriving DecidableEq, Repr

namespace UnitExpr

/-- The unit of an expression. -/
def eval {α : Type} [Scalar α] (resolve : String → Result (PhysUnit α)) :
    UnitExpr → Result (PhysUnit α)
  | name text => resolve text
  | pow base n => do (← eval resolve base).pow n
  | mul a b => do
    let u ← eval resolve a
    let v ← eval resolve b
    u.mul v
  | div a b => do
    let u ← eval resolve a
    let v ← eval resolve b
    u.div v

/-- Characters that LaTeX has commands for. -/
def mathChar (c : Char) : List Char :=
  if c = 'Ω' then "\\Omega ".toList
  else if c = 'µ' || c = 'μ' then "\\mu ".toList
  else [c]

/-- A unit name in LaTeX. -/
def nameLabel (text : String) : String :=
  Text.trim (String.ofList (text.toList.flatMap mathChar))

/-- An expression in LaTeX: products side by side, quotients as fractions. -/
def label : UnitExpr → String
  | name text => nameLabel text
  | pow base n => label base ++ "^\x7b" ++ toString n ++ "\x7d"
  | mul a b => label a ++ " \\ " ++ label b
  | div a b => "\\frac\x7b" ++ label a ++ "\x7d\x7b" ++ label b ++ "\x7d"

end UnitExpr
end Mensura
