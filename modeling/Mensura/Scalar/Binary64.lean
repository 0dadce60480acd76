import Mensura.Scalar
import Mensura.Binary64.Fraction
import Mensura.Binary64.Power
import Mensura.Binary64.Shortest

/-!
# Doubles as scalars

The numbers the calculator runs on.  The named functions report an argument outside their domain
and a result too large as faults; an infinite argument may still have an infinite value.
-/

set_option autoImplicit false

namespace Mensura
namespace Binary64

/-- Denominators up to this bound are recognised in an exponent. -/
def denominatorBound : Nat := 1000000

/-- The value of a function that no finite argument takes out of the doubles. -/
def bounded (f : Float → Float) (x : Float) : Except FunctionFault Float :=
  let r := f x
  if (r.isNaN && !x.isNaN) || (r.isInf && x.isFinite) then .error .outsideDomain else .ok r

/-- The value of a function that finite arguments may take out of the doubles. -/
def unbounded (f : Float → Float) (x : Float) : Except FunctionFault Float :=
  let r := f x
  if r.isNaN && !x.isNaN then .error .outsideDomain
  else if r.isInf && x.isFinite then .error .overflow
  else .ok r

/-- A logarithm; of positive numbers only. -/
def logarithm (f : Float → Float) (x : Float) : Except FunctionFault Float :=
  if x ≤ 0 then .error .outsideDomain else .ok (f x)

/-- Rounds to an integer, which is a double again. -/
def rounded (f : Float → Option Int) (x : Float) : Except FunctionFault Float :=
  match f x with
  | some n => .ok (ofInt n)
  | none => .error (if x.isNaN then .undefinedToInteger else .overflow)

/-- To the nearest integer: half is added to the size, the sum rounded down.  Halves go away
from zero, and the sign stays, also that of zero. -/
def roundAway (x : Float) : Except FunctionFault Float :=
  (rounded floor? (x.abs + 0.5)).map fun r ↦ copySign r x

/-- The value of a named function. -/
def elementary (f : NamedFunction) (xs : List Float) : Except FunctionFault Float :=
  match f, xs with
  | .sin, [x] => bounded Float.sin x
  | .cos, [x] => bounded Float.cos x
  | .tan, [x] => bounded Float.tan x
  | .asin, [x] => bounded Float.asin x
  | .acos, [x] => bounded Float.acos x
  | .atan, [x] => bounded Float.atan x
  | .atan2, [y, x] => .ok (Float.atan2 y x)
  | .sinh, [x] => unbounded Float.sinh x
  | .cosh, [x] => unbounded Float.cosh x
  | .tanh, [x] => bounded Float.tanh x
  | .exp, [x] => unbounded Float.exp x
  | .ln, [x] => logarithm Float.log x
  | .log, [x] => do
    let num ← logarithm Float.log x
    return num / Float.log 10
  | .log, [x, base] => do
    let num ← logarithm Float.log x
    let den ← logarithm Float.log base
    if den == 0 then throw .zeroDivision
    return num / den
  | .log2, [x] => logarithm Float.log2 x
  | .ceil, [x] => rounded ceil? x
  | .floor, [x] => rounded floor? x
  | .round, [x] => roundAway x
  | _, _ => .error .outsideDomain

theorem one_beq_zero : (nearest false 1 1 == nearest false 0 1) = false := by decide +kernel

theorem isFinite_one : (nearest false 1 1).isFinite = true := by decide +kernel

end Binary64

instance : Scalar Float where
  ofNat n := Binary64.nearest false n 1
  ofDecimal := Binary64.ofDecimal
  beq x y := x == y
  lt x y := x < y
  abs := Float.abs
  close := Binary64.close
  isFinite := Float.isFinite
  reading := Binary64.reading
  text := Binary64.text
  toInt? := Binary64.toInt?
  rationalize? := Binary64.rationalize? Binary64.denominatorBound
  scale10 := Binary64.scale10
  ilog10 := Binary64.ilog10
  powInt := Binary64.powInt
  powFrac := Binary64.powFrac
  scaleByFraction := Binary64.scaleByFraction
  elementary := Binary64.elementary
  beq_one_zero := Binary64.one_beq_zero
  isFinite_one := Binary64.isFinite_one

end Mensura
