import Mensura.Decimal.Reading

/-!
# Binary64 as exact numbers

A finite double is `± m · 2 ^ q` with natural `m`.  This module goes both ways between the two:

* `reading` takes a double apart into an exact quotient;
* `nearest` finds the double nearest to a quotient, halves to the even neighbour, infinity beyond
  the largest finite one.

Everything in between — integral parts, neighbours, integers and decimals read as doubles — is
arithmetic on natural numbers, so each of these functions computes inside the logic.
-/

set_option autoImplicit false

namespace Mensura
namespace Binary64

/-- The sign bit, `2 ^ 63`. -/
def signBit : Nat := 0x8000000000000000

/-- The leading bit of a significand in the normal range, `2 ^ 52`.  Below it stands the
fraction, so it is also the unit of the exponent field. -/
def leadingBit : Nat := 0x10000000000000

/-- The magnitude bits of infinity: all bits of the exponent field. -/
def infinityBits : Nat := 0x7FF0000000000000

/-- The bits below the sign: exponent field and fraction. -/
def magnitudeBits (x : Float) : Nat :=
  x.toBits.toNat % signBit

/-- Whether the sign bit is set. -/
def isNegative (x : Float) : Bool :=
  signBit ≤ x.toBits.toNat

/-- The double of the given magnitude bits and sign. -/
def ofMagnitudeBits (negative : Bool) (bits : Nat) : Float :=
  Float.ofBits (UInt64.ofNat (if negative then bits + signBit else bits))

/-- The significand `m` of `m · 2 ^ q`; below the normal range it lacks the leading one. -/
def significand (bits : Nat) : Nat :=
  let fraction := bits % leadingBit
  if bits < leadingBit then fraction else fraction + leadingBit

/-- The exponent `q` of `m · 2 ^ q`. -/
def binaryExponent (bits : Nat) : Int :=
  if bits < leadingBit then -1074 else (bits / leadingBit : Nat) - 1075

/-- `m · 2 ^ q` as a quotient of natural numbers. -/
def scaledRatio (m : Nat) (q : Int) : Nat × Nat :=
  match q with
  | .ofNat k => (m * Nat.pow 2 k, 1)
  | .negSucc k => (m, Nat.pow 2 (k + 1))

/-- The exact content of a double. -/
def reading (x : Float) : Reading :=
  if x.isNaN then .undefined
  else if x.isInf then .infinite (isNegative x)
  else
    let bits := magnitudeBits x
    let (num, den) := scaledRatio (significand bits) (binaryExponent bits)
    .finite (isNegative x) num den

/-- The exact value of a finite double; `none` for infinities and for what is no number. -/
def toRat? (x : Float) : Option Rat :=
  match reading x with
  | .finite negative num den =>
    some (if negative then -(mkRat num den) else mkRat num den)
  | _ => none

/-- The exponent of the largest power of two that is at most `num / den`. -/
def binaryOrder (num den : Nat) : Int :=
  let guess := (num.log2 : Int) - den.log2
  let (n, d) :=
    match guess with
    | .ofNat k => (num, den * Nat.pow 2 k)
    | .negSucc k => (num * Nat.pow 2 (k + 1), den)
  if d ≤ n then guess else guess - 1

/-- The magnitude bits of the double nearest to `num / den`.  The leading bit of a significand
adds one to the exponent field, and one that rounds up to the next power of two adds another. -/
def nearestBits (num den : Nat) : Nat :=
  if num = 0 then 0
  else
    let q := max (binaryOrder num den - 52) (-1074)
    let m :=
      match q with
      | .ofNat k => Decimal.roundHalfEven num (den * Nat.pow 2 k)
      | .negSucc k => Decimal.roundHalfEven (num * Nat.pow 2 (k + 1)) den
    min ((q + 1074).toNat * leadingBit + m) infinityBits

/-- The double nearest to `± num / den`. -/
def nearest (negative : Bool) (num den : Nat) : Float :=
  ofMagnitudeBits negative (nearestBits num den)

/-- The double nearest to a rational number. -/
def ofRat (r : Rat) : Float :=
  nearest (r.num < 0) r.num.natAbs r.den

/-- The double nearest to an integer. -/
def ofInt (n : Int) : Float :=
  nearest (n < 0) n.natAbs 1

/-- The double nearest to `m · 10 ^ e`.  Exponents that lead far out of range are settled
without writing the power of ten out. -/
def ofDecimal (m : Nat) (e : Int) : Float :=
  if m = 0 then 0
  else
    let order := (Decimal.log10 m : Int) + e
    if 310 < order then ofMagnitudeBits false infinityBits
    else if order < -330 then 0
    else
      let (num, den) := Decimal.shiftRatio m 1 e
      nearest false num den

/-- The integral value of a double, if it has one. -/
def toInt? (x : Float) : Option Int :=
  match toRat? x with
  | some r => if r.den = 1 then some r.num else none
  | none => none

/-- The largest integer at most `x`. -/
def floor? (x : Float) : Option Int :=
  (toRat? x).map Rat.floor

/-- The least integer at least `x`. -/
def ceil? (x : Float) : Option Int :=
  (toRat? x).map Rat.ceil

/-- `x` with the sign of `y`. -/
def copySign (x y : Float) : Float :=
  ofMagnitudeBits (isNegative y) (magnitudeBits x)

/-- Equal, or both finite and within a relative distance of `10 ^ -12` of the larger one. -/
def close (x y : Float) : Bool :=
  x == y ||
    (x.isFinite && y.isFinite &&
      ((y - x).abs ≤ (1e-12 * y).abs || (y - x).abs ≤ (1e-12 * x).abs))

end Binary64
end Mensura
