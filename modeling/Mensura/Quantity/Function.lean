import Mensura.Quantity

/-!
# Named functions of quantities

Functions work on the values of their arguments in base units, once the rule for units is met.
A result that keeps a dimension has it in base units.
-/

set_option autoImplicit false

namespace Mensura
namespace NamedFunction

variable {α : Type} [Scalar α]

/-- The first argument that is no plain number. -/
def firstDimensioned (args : List (Quantity α)) : Option (Quantity α) :=
  args.find? fun a ↦ !a.isDimensionless

/-- The dimension of the result, if the arguments meet the rule for units. -/
def resultDimension (f : NamedFunction) (args : List (Quantity α)) : Result Dimension := do
  match f.policy, args with
  | .plain, args =>
    match firstDimensioned args with
    | some a => fail (.notDimensionless f.name (← a.text))
    | none => return 1
  | .keep, [] => return 1
  | .keep, first :: rest =>
    match rest.find? (·.dim ≠ first.dim) with
    | some a => fail (.argumentsDiffer f.name (← first.text) (← a.text))
    | none => return first.dim

/-- What a function without a value is reported as. -/
def failure (f : NamedFunction) : FunctionFault → Failure
  | .outsideDomain => .calc (.outsideDomain f.name "math domain error")
  | .zeroDivision => .calc (.outsideDomain f.name "float division by zero")
  | .undefinedToInteger => .calc (.outsideDomain f.name "cannot convert float NaN to integer")
  | .overflow => .calc (.functionOverflow f.name)
  | .loneArgument => .fault .loneArgument

/-- The value of a function. -/
def applyTo (f : NamedFunction) (args : List (Quantity α)) : Result (Quantity α) := do
  if !f.arity.accepts args.length then
    fail (.argumentCount f.name f.arity.text args.length)
  else
    let dim ← resultDimension f args
    match Scalar.call f (args.map Quantity.value) with
    | .error e => .error (f.failure e)
    | .ok x =>
      if Scalar.isFinite x then Quantity.normalize ⟨x, PhysUnit.decimal dim 0⟩
      else fail (.functionNotFinite f.name)

/-- The value of the function of a name. -/
def callByName (name : String) (args : List (Quantity α)) : Result (Quantity α) :=
  match ofName? name with
  | some f => f.applyTo args
  | none => fail (.unknownFunction name)

end NamedFunction
end Mensura
