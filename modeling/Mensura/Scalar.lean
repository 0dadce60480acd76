import Mensura.Decimal.Reading
import Mensura.NamedFunction
import Mensura.Scalar.Fault

/-!
# Scalars: the numbers the calculator computes with

Quantities, units and expressions do not care what their numbers are made of.  `Scalar` lists
what they ask of them: field operations, comparison, shifting the decimal point, powers, the
named functions, and a `Reading` for printing.

The calculator runs on doubles (`Mensura.Scalar.Binary64`).  The same definitions over exact
rationals (`Mensura.Scalar.Exact`) say what it would answer if nothing were ever rounded.
-/

set_option autoImplicit false

namespace Mensura

/-- The operations the calculator needs of its numbers. -/
class Scalar (α : Type) extends Add α, Sub α, Mul α, Div α, Neg α where
  ofNat : Nat → α
  /-- The number `m · 10 ^ e` of a decimal. -/
  ofDecimal : (m : Nat) → (e : Int) → α
  beq : α → α → Bool
  lt : α → α → Bool
  abs : α → α
  /-- Equality up to a relative error far below anything displayed. -/
  close : α → α → Bool
  isFinite : α → Bool
  reading : α → Reading
  /-- The shortest text that reads back. -/
  text : α → String
  /-- The value as an integer, if it is one. -/
  toInt? : α → Option Int
  /-- The fraction with a small denominator that the number stands for. -/
  rationalize? : α → Option Rat
  /-- `x · 10 ^ n`. -/
  scale10 : α → Int → α
  /-- The decimal exponent of a finite number other than zero. -/
  ilog10 : α → Int
  /-- The integer power of a number; `none` is overflow. -/
  powInt : α → Int → Option α
  /-- `(x · 10 ^ e) ^ p`, as a number and a power of ten. -/
  powFrac : α → Int → α → Except PowerFault (α × Int)
  /-- `x · 10 ^ (e - r)`; `none` is overflow. -/
  scaleByFraction : α → Int → Rat → Option α
  /-- The value of a named function other than the absolute value and the extrema. -/
  elementary : NamedFunction → List α → Except FunctionFault α
  /-- One is a number to scale by. -/
  beq_one_zero : beq (ofNat 1) (ofNat 0) = false
  isFinite_one : isFinite (ofNat 1) = true

namespace Scalar

variable {α : Type} [Scalar α]

/-- Whether a number is zero, of either sign. -/
def isZero (x : α) : Bool :=
  beq x (ofNat 0)

/-- Whether a number is exactly one. -/
def isOne (x : α) : Bool :=
  beq x (ofNat 1)

/-- Whether a unit can be this many times its dimension's base unit: finite and not zero. -/
def isFactor (x : α) : Bool :=
  isFinite x && !isZero x

theorem isFactor_one : isFactor (ofNat 1 : α) = true := by
  simp [isFactor, isZero, beq_one_zero, isFinite_one]

/-- The first of the smallest. -/
def least (x : α) (ys : List α) : α :=
  ys.foldl (fun best y ↦ if lt y best then y else best) x

/-- The first of the largest. -/
def largest (x : α) (ys : List α) : α :=
  ys.foldl (fun best y ↦ if lt best y then y else best) x

/-- The value of a named function.  Absolute values and extrema only compare. -/
def call (f : NamedFunction) (xs : List α) : Except FunctionFault α :=
  match f, xs with
  | .abs, [x] => .ok (abs x)
  | .min, [_] => .error .loneArgument
  | .max, [_] => .error .loneArgument
  | .min, x :: ys => .ok (least x ys)
  | .max, x :: ys => .ok (largest x ys)
  | f, xs => elementary f xs

/-- Fifteen significant digits, integers without a point; zero has no sign. -/
def displayText (x : α) : String :=
  if isZero x then "0" else (reading x).general 15

end Scalar
end Mensura
