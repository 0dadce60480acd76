import Mensura.Error
import Mensura.Binary64.Fraction
import Mensura.Binary64.Shortest
import Mensura.Text.Integer

/-!
# Data of callers and files

A `Datum` is a value whose kind is only known when it arrives: a setting from a file, an exponent
from a caller.  `shown` writes it as messages quote it, `typeName` names its kind.  The functions
at the end take a datum for the number that an operation needs.
-/

set_option autoImplicit false

namespace Mensura

/-- Values of any kind. -/
inductive Datum
  | none
  | bool (b : Bool)
  | int (n : Int)
  | real (x : Float)
  | fraction (r : Rat)
  | text (s : String)
  | table (entries : List (String × Datum))

namespace Datum

/-- The kind of a value. -/
def typeName : Datum → String
  | none => "NoneType"
  | bool _ => "bool"
  | int _ => "int"
  | real _ => "float"
  | fraction _ => "Fraction"
  | text _ => "str"
  | table _ => "dict"

mutual

/-- A value as messages quote it. -/
def shown : Datum → Except Fault String
  | none => .ok "None"
  | bool b => .ok (if b then "True" else "False")
  | int n => Text.integerText n
  | real x => .ok (Binary64.text x)
  | fraction r => do
    let num ← Text.integerText r.num
    let den ← Text.integerText r.den
    return "Fraction(" ++ num ++ ", " ++ den ++ ")"
  | text s => .ok (Text.quoted s)
  | table entries => do return "\x7b" ++ ", ".intercalate (← shownEntries entries) ++ "\x7d"

/-- The entries of a table as messages quote them. -/
def shownEntries : List (String × Datum) → Except Fault (List String)
  | [] => .ok []
  | (key, value) :: rest => do
    let value ← shown value
    return (Text.quoted key ++ ": " ++ value) :: (← shownEntries rest)

end

/-! ## Numbers -/

/-- The fraction that a number stands for, with a bound on the denominator that only counts for
reals. -/
def rationalize (bound : Int) : Datum → Except Fault Rat
  | int n => .ok n
  | real x =>
    if !x.isFinite then .error (.nonFiniteRational (Binary64.text x))
    else if bound < 1 then .error .denominatorBound
    else
      match Binary64.rationalize? bound.toNat x with
      | some r => .ok r
      | .none => .error (.inexactRational (Binary64.text x))
  | d => .error (.rationalType d.typeName)

/-- A rational number as a datum: an integer where it is one. -/
def ofRat (r : Rat) : Datum :=
  if r.den = 1 then int r.num else fraction r

/-- The fraction that a number stands for as a datum.  A fraction that is an integer becomes one,
unless it is to stay a fraction. -/
def rationalized (asFraction : Bool) (bound : Int) (d : Datum) : Except Fault Datum := do
  let r ← d.rationalize bound
  return if asFraction then fraction r else ofRat r

/-- The bound on denominators unless another is given. -/
def denominatorBound : Int := 1000000

/-- An exponent that a dimension can be raised to. -/
def dimensionExponent : Datum → Except Fault Rat
  | fraction r => .ok r
  | int n => .ok n
  | real x => rationalize denominatorBound (real x)
  | d => .error (.exponentType d.typeName)

/-- An exponent that a unit can be raised to: an integer, however it is written. -/
def unitExponent (d : Datum) : Result Int := do
  match d with
  | int n => return n
  | real x =>
    if x.isNaN then .error (.fault .undefinedToInteger)
    else if x.isInf then .error (.fault .outOfRange)
    else
      match Binary64.toInt? x with
      | some n => return n
      | .none => fail (.unitPowerNotInteger (← d.shown))
  | fraction r => if r.den = 1 then return r.num else fail (.unitPowerNotInteger (← d.shown))
  | d => fail (.unitPowerNotInteger (← d.shown))

/-- A power of ten for a unit. -/
def decimalExponent : Datum → Except Fault Int
  | int n => .ok n
  | bool b => .ok (if b then 1 else 0)
  | real x =>
    if x.isNaN then .error .undefinedToInteger
    else if x.isInf then .error .outOfRange
    else
      match Binary64.toInt? x with
      | some n => .ok n
      | .none => .error .exponentNotInteger
  | fraction r => if r.den = 1 then .ok r.num else .error .exponentNotInteger
  | text s => do
    -- A numeral in quotes is an integer to read, but not an integer.
    let _ ← Text.integer s
    throw .exponentNotInteger
  | d => .error (.integerType d.typeName)

end Datum
end Mensura
