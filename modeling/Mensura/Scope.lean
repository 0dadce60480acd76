import Mensura.Quantity

/-!
# Scopes

The names bound to quantities, in the order of their latest binding: binding a name again moves
it to the end.  Every calculation starts from the constants.
-/

set_option autoImplicit false

namespace Mensura

/-- Names with their values, each name once. -/
structure Scope (α : Type) [Scalar α] where
  bindings : List (String × Quantity α)

namespace Scope

variable {α : Type} [Scalar α]

/-- No names at all. -/
def empty : Scope α :=
  ⟨[]⟩

/-- The circle constant and the base of natural logarithms. -/
def constants : Scope α :=
  ⟨[("\\pi", .ofScalar (Scalar.ofDecimal 3141592653589793 (-15))),
    ("e", .ofScalar (Scalar.ofDecimal 2718281828459045 (-15)))]⟩

/-- The value of a name. -/
def find? (s : Scope α) (name : String) : Option (Quantity α) :=
  s.bindings.lookup name

/-- Binds a name, in place of an earlier binding of it. -/
def bind (s : Scope α) (name : String) (value : Quantity α) : Scope α :=
  ⟨s.bindings.filter (·.1 ≠ name) ++ [(name, value)]⟩

/-- The names with their values as text. -/
def listing (s : Scope α) : Except Fault (List (String × String)) :=
  s.bindings.mapM fun b ↦ do return (b.1, ← b.2.text)

/-- All bindings in one line. -/
def code (s : Scope α) : Except Fault String := do
  return "Scope(" ++ ", ".intercalate ((← s.listing).map fun b ↦ b.1 ++ "=" ++ b.2) ++ ")"

end Scope
end Mensura
