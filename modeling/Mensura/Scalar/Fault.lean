/-!
# Values that do not exist

Why a power or a named function has no value.  The reasons are told apart because messages tell
them apart.
-/

set_option autoImplicit false

namespace Mensura

/-- Why a fractional power has no value. -/
inductive PowerFault
  /-- The power itself is too large. -/
  | overflow
  /-- The exponent of the power of ten is too large to split. -/
  | unboundedExponent
  deriving DecidableEq, Repr

/-- Why a named function has no value. -/
inductive FunctionFault
  | outsideDomain
  | zeroDivision
  /-- What is no number cannot be rounded to an integer. -/
  | undefinedToInteger
  | overflow
  /-- The extremum of a lone argument is looked for inside that argument. -/
  | loneArgument
  deriving DecidableEq, Repr

end Mensura
