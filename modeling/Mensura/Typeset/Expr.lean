import Mensura.Expr
import Mensura.Typeset.Quantity

/-!
# Typesetting expressions

An expression as a formula.  Sums and differences bring their own parentheses, quotients become
fractions, everything else is written side by side.
-/

set_option autoImplicit false

namespace Mensura
namespace Typeset

variable {α : Type} [Scalar α]

/-- The functions that have a LaTeX command, with it. -/
def functionCommands : List (String × String) := [
  ("sin", "\\sin"), ("cos", "\\cos"), ("tan", "\\tan"),
  ("asin", "\\arcsin"), ("acos", "\\arccos"), ("atan", "\\arctan"),
  ("sinh", "\\sinh"), ("cosh", "\\cosh"), ("tanh", "\\tanh"),
  ("exp", "\\exp"), ("ln", "\\ln"), ("log", "\\log"),
  ("min", "\\min"), ("max", "\\max")]

/-- A function applied to arguments; the absolute value has bars instead of a name. -/
def call (function : String) (args : List String) : String :=
  let inner := ", ".intercalate args
  if function = "abs" then "\\left|" ++ inner ++ "\\right|"
  else
    let name := (functionCommands.lookup function).getD ("\\operatorname" ++ group function)
    name ++ "(" ++ inner ++ ")"

/-- An operator applied to operands.  Those of one operand show the first of more. -/
def operator : Operator α → List String → Result String
  | .attach _ label, a :: _ => .ok (a ++ "\\ " ++ label)
  | .neg, a :: _ => .ok ("-" ++ a)
  | .add, [a, b] => .ok ("(" ++ a ++ " + " ++ b ++ ")")
  | .sub, [a, b] => .ok ("(" ++ a ++ " - " ++ b ++ ")")
  | .mul, [a, b] => .ok (a ++ " \\times " ++ b)
  | .div, [a, b] => .ok (frac a b)
  | .pow, [a, b] => .ok (a ++ "^" ++ group b)
  | op, args => fail (.operandCount op.shown op.arity args.length)

/-- A literal: plain numbers as short as possible, other quantities like any value. -/
def literal (f : Format α) (q : Quantity α) : Result String :=
  if q.isDimensionless && Scalar.isOne q.unit.multiplier then .ok (number q.value)
  else quantity { f with hint := none } q

mutual

/-- An expression as a formula. -/
def expr (f : Format α) : Expr α → Result String
  | .literal value => literal f value
  | .ident name => .ok name
  | .call function args => do return call function (← exprs f args)
  | .apply op operands => do operator op (← exprs f operands)

/-- Several expressions as formulas. -/
def exprs (f : Format α) : List (Expr α) → Result (List String)
  | [] => .ok []
  | e :: rest => do
    let s ← expr f e
    let ss ← exprs f rest
    return s :: ss

end

end Typeset
end Mensura
