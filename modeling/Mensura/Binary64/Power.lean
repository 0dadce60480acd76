import Mensura.Binary64.TenPower
import Mensura.Scalar.Fault

/-!
# Powers of doubles

* `powInt` raises to an integer.  The power, multiplied out to more digits than a double has,
  decides what it can: overflow, underflow and every power that is a double.  Between two doubles
  the platform's power function may choose either neighbour, so the last bit is the one its users
  know.
* `powFrac` raises to a fraction, by the platform's power function.
-/

set_option autoImplicit false

namespace Mensura
namespace Binary64

/-! ## Multiplying out -/

/-- The binary digits that are kept while an `n`-th power is multiplied out.  Whatever is cut off
underway grows with the exponent, so there are more of them for large ones. -/
def keptDigits (n : Nat) : Nat :=
  128 + n.log2

/-- `m · 2 ^ e`, cut to its leading `digits` binary digits. -/
def truncated (digits m : Nat) (e : Int) : Nat × Int :=
  let excess := m.log2 + 1 - digits
  (m / Nat.pow 2 excess, e + excess)

/-- The power `(m · 2 ^ e) ^ n` or a little less, by squaring and cutting. -/
def powerBelow (digits m : Nat) (e : Int) (n : Nat) : Nat × Int :=
  if n = 0 then (1, 0)
  else
    let root := powerBelow digits m e (n / 2)
    let square := truncated digits (root.1 * root.1) (root.2 + root.2)
    if n % 2 = 0 then square else truncated digits (square.1 * m) (square.2 + e)

/-! ## Rounding -/

/-- The other double next to the quotient `num / den`, whose nearest one has the magnitude bits
`bits`; the same again where the quotient is a double.  Zero has no neighbour: whether a quotient
vanishes is not left open. -/
def otherNeighbour (num den bits : Nat) : Nat :=
  let (n, d) := scaledRatio (significand bits) (binaryExponent bits)
  if bits = 0 then 0
  else if n * den < num * d then min (bits + 1) infinityBits
  else if num * d < n * den then max (bits - 1) 1
  else bits

/-- The double for `num / den`: the nearest one, or its neighbour on the other side of the
quotient if that is what `guess` is. -/
def roundTowards (guess : Float) (num den : Nat) : Float :=
  let bits := nearestBits num den
  let other := otherNeighbour num den bits
  ofMagnitudeBits false (if magnitudeBits guess = other then other else bits)

/-- Powers of two beyond this one, and below its inverse, are settled without being written out. -/
def farExponent : Int := 1100

/-- The double for `m · 2 ^ e`, or for its inverse. -/
def roundPower (guess : Float) (inverse : Bool) (m : Nat) (e : Int) : Float :=
  let order := m.log2 + e
  if farExponent < (if inverse then -order else order) then ofMagnitudeBits false infinityBits
  else if farExponent < (if inverse then order else -order) then 0
  else
    let (num, den) := scaledRatio m e
    if inverse then roundTowards guess den num else roundTowards guess num den

/-! ## Integer powers -/

/-- An integer exponent, read as a double. -/
def readExponent (n : Int) : Int :=
  (toInt? (ofInt n)).getD 0

/-- `x ^ n` for finite `x > 0`; `none` is overflow. -/
def powPositive (x : Float) (n : Int) : Option Float :=
  if x == 1 then some 1
  else
    let k := readExponent n
    let bits := magnitudeBits x
    let (m, e) := powerBelow (keptDigits k.natAbs) (significand bits) (binaryExponent bits) k.natAbs
    let result := roundPower (Float.pow x (ofInt n)) (k < 0) m e
    if result.isInf then none else some result

/-- Whether an exponent is odd when it is read as a double, which beyond `2 ^ 53` none is. -/
def isOddExponent (n : Int) : Bool :=
  (toInt? (ofInt n)).any (· % 2 = 1)

/-- `x ^ n`; `none` if the result, or the exponent read as a double, is too large.  Odd powers
keep the sign of `x`. -/
def powInt (x : Float) (n : Int) : Option Float :=
  let odd := isOddExponent n
  if (ofInt n).isInf then none
  else if n = 0 then some 1
  else if x.isNaN then some x
  else if x.isInf then
    let size : Float := if 0 < n then x.abs else 0
    some (if odd then copySign size x else size)
  else if x == 0 then
    if 0 < n then some (if odd then x else 0) else none
  else
    (powPositive x.abs n).map fun r ↦ if odd then copySign r x else r

/-- The power of a double by a double, `none` if a finite base overflows. -/
def pow (x y : Float) : Option Float :=
  let r := Float.pow x y
  if r.isInf && x.isFinite && y.isFinite then none else some r

/-- `(x · 10 ^ e) ^ p` as a double and a power of ten apart: the integral part of `e · p` stays
in the exponent, the rest is multiplied in. -/
def powFrac (x : Float) (e : Int) (p : Float) : Except PowerFault (Float × Int) := do
  let exponent := ofInt e
  if exponent.isInf then throw .unboundedExponent
  let shifted := exponent * p
  let some whole := floor? shifted | throw .unboundedExponent
  let some a := pow x p | throw .overflow
  let some b := pow 10 (shifted - ofInt whole) | throw .overflow
  return (a * b, whole)

/-- `x · 10 ^ (e - r)` for a fraction `r`; `none` if a power of ten is out of range. -/
def scaleByFraction (x : Float) (e : Int) (r : Rat) : Option Float := do
  let exponent := ofInt e
  let shift := ofRat r
  if exponent.isInf || shift.isInf then none
  let factor ← pow 10 (exponent - shift)
  return x * factor

end Binary64
end Mensura
