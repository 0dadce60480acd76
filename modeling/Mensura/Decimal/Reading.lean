import Mensura.Decimal.Log

/-!
# Readings: what a number on the display stands for

A `Reading` is the exact content of a number the calculator holds: a signed quotient of natural
numbers, an infinity, or no number at all.  The printers of this folder start from it, so they
serve exact rationals and binary floating point alike.

* `Reading.fixed` writes a given number of decimal places;
* `Reading.general` writes a given number of significant digits and drops the zeros at the end,
  with a power of ten where the number is very large or very small.
-/

set_option autoImplicit false

namespace Mensura

/-- The exact content of a number.  Zero keeps its sign. -/
inductive Reading
  | finite (negative : Bool) (num den : Nat)
  | infinite (negative : Bool)
  | undefined
  deriving DecidableEq, Repr

namespace Decimal

/-- A minus sign in front, where there is one. -/
def signed (negative : Bool) (text : String) : String :=
  if negative then "-" ++ text else text

/-- `width` decimal digits of `n`, with zeros in front. -/
def padded (width n : Nat) : String :=
  let digits := toString n
  String.ofList (List.replicate (width - digits.length) '0') ++ digits

/-- A run of zeros. -/
def zeros (n : Nat) : String :=
  String.ofList (List.replicate n '0')

/-- The decimal digits of `n`, most significant first. -/
def digitChars (n : Nat) : List Char :=
  (toString n).toList

/-- The digits without the zeros at the end (all of them zeros: none is left). -/
def dropTrailingZeros (digits : List Char) : List Char :=
  (digits.reverse.dropWhile (· = '0')).reverse

/-- `n` units of the place `places` behind the point, written out. -/
def withPoint (places n : Nat) : String :=
  if places = 0 then toString n
  else
    let one := Nat.pow 10 places
    toString (n / one) ++ "." ++ padded places (n % one)

/-- Where a format writes a plain decimal and where it writes a power of ten. -/
structure Style where
  /-- Decimal exponents from `low` up to, but not including, `high` are written plainly. -/
  low : Int
  high : Int
  /-- A plain decimal without a fraction still ends in `.0`. -/
  markIntegers : Bool

/-- The power of ten behind a mantissa: sign and at least two digits. -/
def exponentText (e : Int) : String :=
  (if e < 0 then "e-" else "e+") ++ padded 2 e.natAbs

/-- Whether a decimal exponent is written plainly. -/
def Style.isPlain (style : Style) (e : Int) : Bool :=
  style.low ≤ e && e < style.high

/-- What stands before the power of ten: the number `d₁.d₂d₃… · 10 ^ e` of the given digits, or
its mantissa if the power of ten is written behind it. -/
def Style.mantissa (style : Style) (digits : List Char) (e : Int) : String :=
  if !style.isPlain e then
    let fraction := digits.drop 1
    String.ofList (digits.take 1) ++
      (if fraction.isEmpty then "" else "." ++ String.ofList fraction)
  else if e < 0 then "0." ++ zeros (e.natAbs - 1) ++ String.ofList digits
  else
    let whole := e.toNat + 1
    let fraction := digits.drop whole
    String.ofList (digits.take whole) ++ zeros (whole - digits.length) ++
      (if fraction.isEmpty then (if style.markIntegers then ".0" else "")
       else "." ++ String.ofList fraction)

/-- The number `d₁.d₂d₃… · 10 ^ e` of the given digits in a style. -/
def Style.write (style : Style) (digits : List Char) (e : Int) : String :=
  style.mantissa digits e ++ if style.isPlain e then "" else exponentText e

/-- The `count` significant digits nearest to `num / den`, as one number, and the decimal
exponent of the first of them.  Rounding up may carry into a new first digit. -/
def significant (count num den : Nat) : Nat × Int :=
  let e := orderOf num den
  let (n, d) := shiftRatio num den (count - 1 - e)
  let digits := roundHalfEven n d
  if digits = Nat.pow 10 count then (Nat.pow 10 (count - 1), e + 1) else (digits, e)

end Decimal

namespace Reading

open Decimal

/-- `places` decimals, correctly rounded, halves to the even neighbour.  What rounds to zero has
no sign. -/
def fixed (places : Nat) : Reading → String
  | finite negative num den =>
    let units := roundHalfEven (num * Nat.pow 10 places) den
    signed (negative && units ≠ 0) (withPoint places units)
  | infinite negative => signed negative "inf"
  | undefined => "nan"

/-- At most `count` significant digits, without zeros at the end: plain for decimal exponents
from -4 up to `count`; otherwise a mantissa, and the power of ten beside it. -/
def generalParts (count : Nat) : Reading → String × Option Int
  | finite negative 0 _ => (signed negative "0", none)
  | finite negative num den =>
    let style : Style := ⟨-4, count, false⟩
    let (digits, e) := significant count num den
    let mantissa := style.mantissa (dropTrailingZeros (digitChars digits)) e
    (signed negative mantissa, if style.isPlain e then none else some e)
  | infinite negative => (signed negative "inf", none)
  | undefined => ("nan", none)

/-- At most `count` significant digits in one text. -/
def general (count : Nat) (r : Reading) : String :=
  match r.generalParts count with
  | (mantissa, some e) => mantissa ++ exponentText e
  | (mantissa, none) => mantissa

/-- Whether the reading is zero, of either sign. -/
def isZero : Reading → Bool
  | finite _ 0 _ => true
  | _ => false

end Reading
end Mensura
