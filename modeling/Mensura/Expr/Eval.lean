import Mensura.Expr
import Mensura.Quantity.Function
import Mensura.Registry.Standard
import Mensura.Scope

/-!
# Evaluating expressions

`eval` walks the tree and answers a quantity; the scope is only read.  A name that is not bound
stands for one of the unit it names.  Operands and arguments are evaluated from left to right,
after an operator's operand count is found right and before a function is looked up.
-/

set_option autoImplicit false

namespace Mensura

variable {α : Type} [Scalar α]

/-- An operator applied to its operands. -/
def Operator.applyTo : Operator α → List (Quantity α) → Result (Quantity α)
  | attach unit _, [a] => a.withUnit unit
  | neg, [a] => a.neg
  | add, [a, b] => a.add b
  | sub, [a, b] => a.sub b
  | mul, [a, b] => a.mul b
  | div, [a, b] => a.div b
  | pow, [a, b] => a.pow b
  | op, args => fail (.operandCount op.shown op.arity args.length)

namespace Expr

/-- The value of a name. -/
def resolve (scope : Scope α) (name : String) : Result (Quantity α) :=
  match scope.find? name with
  | some q => .ok q
  | none =>
    match Registry.standard.resolve name with
    | .ok u => .ok ⟨Scalar.ofNat 1, u⟩
    | .error _ => fail (.undefinedSymbol name)

mutual

/-- The value of an expression. -/
def eval (scope : Scope α) : Expr α → Result (Quantity α)
  | literal value => value.normalize
  | ident name => resolve scope name
  | call function args => do
    NamedFunction.callByName function (← evalAll scope args)
  | apply op operands => do
    if operands.length = op.arity then op.applyTo (← evalAll scope operands)
    else fail (.operandCount op.shown op.arity operands.length)

/-- The values of expressions, from left to right. -/
def evalAll (scope : Scope α) : List (Expr α) → Result (List (Quantity α))
  | [] => .ok []
  | e :: rest => do
    let v ← eval scope e
    let vs ← evalAll scope rest
    return v :: vs

end

end Expr
end Mensura
