import Mensura.Quantity

/-!
# Expressions

The tree of an expression.  Operators are applied to a list of operands, whose length the
evaluator checks; attaching a unit is an operator that carries the unit, already resolved, and
the label it is displayed with.
-/

set_option autoImplicit false

namespace Mensura

/-- The operators. -/
inductive Operator (α : Type) [Scalar α]
  | add | sub | mul | div | pow | neg
  | attach (unit : PhysUnit α) (label : String)

namespace Operator

variable {α : Type} [Scalar α]

/-- The number of operands. -/
def arity : Operator α → Nat
  | neg | attach .. => 1
  | _ => 2

/-- How errors name the operator. -/
def shown : Operator α → String
  | add => "'+'"
  | sub => "'-'"
  | mul => "'*'"
  | div => "'/'"
  | pow => "'^'"
  | neg => "'neg'"
  | attach _ label => "unit '" ++ label ++ "'"

end Operator

/-- Expressions. -/
inductive Expr (α : Type) [Scalar α]
  | literal (value : Quantity α)
  | ident (name : String)
  | call (function : String) (args : List (Expr α))
  | apply (op : Operator α) (operands : List (Expr α))

namespace Expr

variable {α : Type} [Scalar α]

/-- The application of an operator to one operand. -/
def unary (op : Operator α) (e : Expr α) : Expr α :=
  apply op [e]

/-- The application of an operator to two operands. -/
def binary (op : Operator α) (a b : Expr α) : Expr α :=
  apply op [a, b]

/-- Induction over expressions, with a hypothesis for each operand and each argument. -/
@[elab_as_elim]
theorem inductionOn {motive : Expr α → Prop} (e : Expr α)
    (literal : ∀ value, motive (literal value)) (ident : ∀ name, motive (ident name))
    (call : ∀ function args, (∀ a ∈ args, motive a) → motive (call function args))
    (apply : ∀ op operands, (∀ a ∈ operands, motive a) → motive (apply op operands)) :
    motive e :=
  e.rec (motive_2 := fun es ↦ ∀ a ∈ es, motive a) literal ident call apply
    (fun _ h ↦ absurd h List.not_mem_nil)
    (fun _ _ hhead htail _ h ↦ (List.mem_cons.mp h).elim (· ▸ hhead) (htail _))

mutual

/-- Every identifier renamed. -/
def rename (f : String → String) : Expr α → Expr α
  | literal value => literal value
  | ident name => ident (f name)
  | call function args => call function (renameAll f args)
  | apply op operands => apply op (renameAll f operands)

/-- Every identifier in a list of expressions renamed. -/
def renameAll (f : String → String) : List (Expr α) → List (Expr α)
  | [] => []
  | e :: rest => rename f e :: renameAll f rest

end

end Expr
end Mensura
