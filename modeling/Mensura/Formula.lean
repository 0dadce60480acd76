import Mensura.Error

/-!
# Formulas of propositional logic

Named propositions joined by `not`, `and`, `or`, `implies` and `equals`.  Parentheses are part of
the tree, so that a formula is typeset as it was written.
-/

set_option autoImplicit false

namespace Mensura

/-- The connectives between two formulas. -/
inductive Connective
  | equals | implies | or | and
  deriving DecidableEq, Repr

namespace Connective

/-- All connectives, loosest first. -/
def all : List Connective := [equals, implies, or, and]

/-- The word for a connective. -/
def word : Connective → String
  | equals => "equals"
  | implies => "implies"
  | or => "or"
  | and => "and"

/-- The connective of a word. -/
def ofWord? (s : String) : Option Connective :=
  all.find? (·.word = s)

/-- Its LaTeX command. -/
def command : Connective → String
  | equals => "\\iff"
  | implies => "\\implies"
  | or => "\\lor"
  | and => "\\land"

/-- How tightly a connective binds on its left; on its right it binds one more tightly. -/
def power : Connective → Nat
  | equals => 0
  | implies => 2
  | or => 4
  | and => 6

/-- The truth value of a connective. -/
def holds : Connective → Bool → Bool → Bool
  | equals, a, b => a == b
  | implies, a, b => !a || b
  | or, a, b => a || b
  | and, a, b => a && b

end Connective

/-- Formulas. -/
inductive Formula
  | prop (name : String)
  | paren (inner : Formula)
  | not (operand : Formula)
  | binary (op : Connective) (left right : Formula)
  deriving DecidableEq, Repr

namespace Formula

/-- The word for negation. -/
def notWord : String := "not"

/-- The truth value under an assignment.  Both sides of a connective are evaluated, so the
leftmost proposition without a value is the one reported. -/
def eval (assignment : String → Option Bool) : Formula → Except CalcError Bool
  | prop name =>
    match assignment name with
    | some b => .ok b
    | none => .error (.undefinedSymbol name)
  | paren inner => eval assignment inner
  | not operand => do return !(← eval assignment operand)
  | binary op left right => do
    let a ← eval assignment left
    let b ← eval assignment right
    return op.holds a b

/-- The formula in LaTeX. -/
def latex : Formula → String
  | prop name => name
  | paren inner => "(" ++ latex inner ++ ")"
  | not operand => "\\neg " ++ latex operand
  | binary op left right => latex left ++ " " ++ op.command ++ " " ++ latex right

end Formula
end Mensura
