/-!
# Named functions

The functions that expressions call by name.  Each has a number of arguments and a rule for
units:

* `plain`: arguments and result are plain numbers (trigonometry, exponentials, logarithms);
* `keep`: all arguments share one dimension, and the result has it too (rounding, extrema).
-/

set_option autoImplicit false

namespace Mensura

/-- The functions by their meaning. -/
inductive NamedFunction
  | sin | cos | tan | asin | acos | atan | atan2 | sinh | cosh | tanh
  | exp | ln | log | log2
  | abs | ceil | floor | round | min | max
  deriving DecidableEq, Repr

/-- What a function does with units. -/
inductive UnitPolicy
  | plain | keep
  deriving DecidableEq, Repr

/-- How many arguments a function takes; without `most` there is no upper limit. -/
structure Arity where
  least : Nat
  most : Option Nat
  deriving DecidableEq, Repr

namespace Arity

/-- Whether a number of arguments is right. -/
def accepts (a : Arity) (n : Nat) : Bool :=
  a.least ≤ n && a.most.all (n ≤ ·)

/-- The numbers of arguments that are right, in words. -/
def text (a : Arity) : String :=
  match a.most with
  | none => "at least " ++ toString a.least
  | some most =>
    if most = a.least then toString most else toString a.least ++ " to " ++ toString most

end Arity

namespace NamedFunction

/-- Every function, in the order in which listings show them. -/
def all : List NamedFunction :=
  [sin, cos, tan, asin, acos, atan, atan2, sinh, cosh, tanh, exp, ln, log, log2,
    abs, ceil, floor, round, min, max]

/-- The name that expressions use. -/
def name : NamedFunction → String
  | sin => "sin"
  | cos => "cos"
  | tan => "tan"
  | asin => "asin"
  | acos => "acos"
  | atan => "atan"
  | atan2 => "atan2"
  | sinh => "sinh"
  | cosh => "cosh"
  | tanh => "tanh"
  | exp => "exp"
  | ln => "ln"
  | log => "log"
  | log2 => "log2"
  | abs => "abs"
  | ceil => "ceil"
  | floor => "floor"
  | round => "round"
  | min => "min"
  | max => "max"

/-- The function of a name. -/
def ofName? (s : String) : Option NamedFunction :=
  all.find? (·.name = s)

/-- The number of arguments. -/
def arity : NamedFunction → Arity
  | atan2 => ⟨2, some 2⟩
  | log => ⟨1, some 2⟩
  | min | max => ⟨1, none⟩
  | _ => ⟨1, some 1⟩

/-- The rule for units. -/
def policy : NamedFunction → UnitPolicy
  | abs | ceil | floor | round | min | max => .keep
  | _ => .plain

end NamedFunction
end Mensura
