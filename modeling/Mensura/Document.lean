import Mensura.Document.Source
import Mensura.Expr.Eval
import Mensura.Formula.Table
import Mensura.Typeset.Expr

/-!
# Documents

A program runs statement by statement over a `State`: the scope, the names that are displayed
under another name, the format of numbers, and the LaTeX written so far.

A statement is an `Action`: it reads the state, computes, and makes its changes one after the
other.  It may stop at any point, and whatever it has changed by then stays changed.  The first
statement that stops ends the run.
-/

set_option autoImplicit false

namespace Mensura
namespace Document

variable {α : Type} [Scalar α]

/-- What comes before and after the output of the statements. -/
def header : String :=
  "\\documentclass\x7barticle\x7d\n\\usepackage\x7bamsmath\x7d\n\\begin\x7bdocument\x7d\n"
def footer : String :=
  "\\end\x7bdocument\x7d\n"

/-- What statements read and change. -/
structure State (α : Type) [Scalar α] where
  scope : Scope α
  names : List (String × String)
  digits : Nat
  scientific : Bool
  output : String

namespace State

/-- The state that programs start in. -/
def initial (digits : Nat) (scientific : Bool) : State α :=
  ⟨Scope.constants, [("pi", "\\pi")], digits, scientific, header⟩

/-- What a name is called at this point. -/
def nameOf (s : State α) (name : String) : String :=
  (s.names.lookup name).getD name

/-- The format of numbers, with a hint or without. -/
def format (s : State α) (hint : Option (UnitHint α)) : Format α :=
  ⟨hint, s.digits, s.scientific⟩

/-- Writes to the output. -/
def write (s : State α) (text : String) : State α :=
  { s with output := s.output ++ text }

/-- A formula on a line of its own. -/
def formulaLine (parts : List String) : String :=
  Formula.inlineMath (" = ".intercalate parts) ++ "\\\\\n"

/-- The value of an expression, the expression as shown, and the value as shown. -/
def evaluated (s : State α) (value : Expr α) (hint : Option (UnitHint α)) :
    Result (Quantity α × String × String) := do
  let e := value.rename s.nameOf
  let v ← e.eval s.scope
  let shown ← Typeset.expr (s.format none) e
  let result ← Typeset.quantity (s.format hint) v
  return (v, shown, result)

/-- Binds a name. -/
def bind (s : State α) (name : String) (value : Quantity α) : State α :=
  { s with scope := s.scope.bind name value }

/-- Gives a name another one. -/
def rename (s : State α) (name latex : String) : State α :=
  { s with names := s.names.filter (·.1 ≠ name) ++ [(name, latex)] }

/-- Puts an entry into sorted entries. -/
def insertName (entry : String × String) : List (String × String) → List (String × String)
  | [] => [entry]
  | x :: rest => if entry.1.toList < x.1.toList then entry :: x :: rest
    else x :: insertName entry rest

/-- The names displayed under another one, in the order of their code points. -/
def sortedNames (s : State α) : List (String × String) :=
  s.names.foldr insertName []

end State

/-! ## Statements -/

/-- What reads and changes the state, and may stop. -/
abbrev Action (α β : Type) [Scalar α] := EStateM Failure (State α) β

/-- A calculation as an action; it changes nothing. -/
def calculate {β : Type} (r : Result β) : Action α β := fun s ↦
  match r with
  | .ok b => .ok b s
  | .error e => .error e s

/-- A declaration shows the expression and binds its value. -/
def declare (name : String) (value : Expr α) : Action α Unit := do
  let s ← get
  let name := s.nameOf name
  let e := value.rename s.nameOf
  let shown ← calculate (Typeset.expr (s.format none) e)
  let v ← calculate (e.eval s.scope)
  modify (·.write (State.formulaLine [name, shown]))
  modify (·.bind name v)

/-- A value to print shows the expression and the value. -/
def print (value : Expr α) (hint : Option (UnitHint α)) : Action α Unit := do
  let s ← get
  let (_, shown, result) ← calculate (s.evaluated value hint)
  modify (·.write (State.formulaLine [shown, result]))

/-- A declaration to print does both. -/
def declarePrint (name : String) (value : Expr α) (hint : Option (UnitHint α)) :
    Action α Unit := do
  let s ← get
  let name := s.nameOf name
  let (v, shown, result) ← calculate (s.evaluated value hint)
  modify (·.write (State.formulaLine [name, shown, result]))
  modify (·.bind name v)

/-- Carries out a statement. -/
def perform : Statement α → Action α Unit
  | .declare name value => declare name value
  | .print value hint => print value hint
  | .declarePrint name value hint => declarePrint name value hint
  | .rename name latex => modify (·.rename name latex)
  | .digits count => modify ({ · with digits := count })
  | .scientific => modify fun s ↦ { s with scientific := !s.scientific }
  | .gap => modify (·.write "\\\\\n")
  | .table args formulas => modify (·.write (Formula.table args formulas))
  | .raw text => modify (·.write (text ++ "\n"))

/-- What a statement that is carried out to its end makes of a state. -/
def State.execute (s : State α) (statement : Statement α) : Result (State α) :=
  match (perform statement).run s with
  | .ok _ t => .ok t
  | .error e _ => .error e

/-! ## Runs -/

/-- How a run ended: the state reached, and what stopped it, if anything did. -/
structure Run (α : Type) [Scalar α] where
  state : State α
  stopped : Option DocumentFailure

/-- Carries out statements up to the first that stops. -/
def run (s : State α) : Program α → Run α
  | [] => ⟨s, none⟩
  | (line, statement) :: rest =>
    match (perform statement).run s with
    | .ok _ t => run t rest
    | .error e t => ⟨t, some (.atLine line e)⟩

/-- A rendered document and the number of its statements. -/
structure Rendered where
  text : String
  statements : Nat

/-- The document of a source. -/
def render (α : Type) [Scalar α] (digits : Nat) (scientific : Bool) (source : String) :
    Except DocumentFailure Rendered := do
  let program : Program α ← ofText source
  let result := run (State.initial digits scientific) program
  match result.stopped with
  | some failure => throw failure
  | none => return ⟨result.state.output ++ footer, program.length⟩

end Document
end Mensura
