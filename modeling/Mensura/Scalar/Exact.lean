import Mensura.Scalar

/-!
# Rational numbers as scalars

Exact arithmetic: nothing is rounded, nothing overflows.  Functions and fractional powers whose
values are irrational have none here.
-/

set_option autoImplicit false

namespace Mensura
namespace Exact

/-- `x · 10 ^ n`. -/
def shift (x : Rat) (n : Int) : Rat :=
  x * Rat.zpow 10 n

/-- The floor of the decimal logarithm of the absolute value; zero for zero. -/
def order (x : Rat) : Int :=
  if x = 0 then 0 else Decimal.orderOf x.num.natAbs x.den

/-- Equality up to one part in `10 ^ 12` of the larger number. -/
def close (x y : Rat) : Bool :=
  x = y || Rat.abs (y - x) ≤ shift (Rat.abs y) (-12) || Rat.abs (y - x) ≤ shift (Rat.abs x) (-12)

/-- The nearest integer, halves away from zero. -/
def roundAway (x : Rat) : Rat :=
  let size := (Rat.abs x + 1 / 2).floor
  if x < 0 then -(size : Rat) else size

/-- The text of a number: a quotient in lowest terms. -/
def text (x : Rat) : String :=
  if x.den = 1 then toString x.num else toString x.num ++ "/" ++ toString x.den

/-- `x · 10 ^ (e - r)` where that is rational. -/
def scaleByFraction (x : Rat) (e : Int) (r : Rat) : Option Rat :=
  if r.den = 1 then some (shift x (e - r.num)) else none

/-- The functions with rational values. -/
def elementary (f : NamedFunction) (xs : List Rat) : Except FunctionFault Rat :=
  match f, xs with
  | .ceil, [x] => .ok x.ceil
  | .floor, [x] => .ok x.floor
  | .round, [x] => .ok (roundAway x)
  | _, _ => .error .outsideDomain

theorem one_beq_zero : decide (((1 : Nat) : Rat) = ((0 : Nat) : Rat)) = false := by
  decide +kernel

end Exact

instance : Scalar Rat where
  ofNat n := n
  ofDecimal m e := Exact.shift m e
  beq x y := x = y
  lt x y := x < y
  abs := Rat.abs
  close := Exact.close
  isFinite _ := true
  reading x := .finite (x < 0) x.num.natAbs x.den
  text := Exact.text
  toInt? x := if x.den = 1 then some x.num else none
  rationalize? := some
  scale10 := Exact.shift
  ilog10 := Exact.order
  powInt x n := some (Rat.zpow x n)
  powFrac _ _ _ := .error .overflow
  scaleByFraction := Exact.scaleByFraction
  elementary := Exact.elementary
  beq_one_zero := Exact.one_beq_zero
  isFinite_one := rfl

end Mensura
