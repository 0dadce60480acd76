import Mensura.Binary64.Basic

/-!
# The shortest decimal of a double

`shortest` finds the fewest significant digits that read back as the same double, and of the
decimals with that many the one nearest to it.  All reals between two midpoints read back as the
double between them, the midpoints included exactly if its significand is even.  So for one
digit, two digits, … the two neighbours of the value on that decimal grid are tested against the
interval, in whole numbers; seventeen digits always suffice.
-/

set_option autoImplicit false

namespace Mensura
namespace Binary64

/-- The reals that read back as one double: from `low / den` to `high / den` around
`value / den`. -/
structure Interval where
  low : Nat
  value : Nat
  high : Nat
  den : Nat
  closed : Bool

namespace Interval

/-- The interval of the positive finite double with these magnitude bits.  Below a power of two
the doubles lie twice as close. -/
def ofBits (bits : Nat) : Interval :=
  let m := significand bits
  let q := binaryExponent bits
  let below := if m = leadingBit && -1074 < q then 1 else 2
  let (unit, den) := scaledRatio 1 (q - 2)
  ⟨(4 * m - below) * unit, 4 * m * unit, (4 * m + 2) * unit, den, m % 2 = 0⟩

/-- Whether `num / den` lies in the interval. -/
def contains (i : Interval) (num den : Nat) : Bool :=
  if i.closed then i.low * den ≤ num * i.den && num * i.den ≤ i.high * den
  else i.low * den < num * i.den && num * i.den < i.high * den

/-- The multiple of `10 ^ e` in the interval that is nearest to its value, in units of
`10 ^ e`; `none` if none is in the interval. -/
def onGrid (i : Interval) (e : Int) : Option Nat :=
  let (unit, unitDen) := Decimal.shiftRatio 1 1 e
  let num := i.value * unitDen
  let den := i.den * unit
  let lower := num / den
  let fits := fun k ↦ i.contains (k * unit) unitDen
  match fits lower, fits (lower + 1) with
  | true, true => some (Decimal.roundHalfEven num den)
  | true, false => some lower
  | false, true => some (lower + 1)
  | false, false => none

/-- The first hit on the grids of `count`, `count + 1`, … significant digits, with the exponent
of its last digit. -/
def firstHit (i : Interval) (order : Int) : (fuel count : Nat) → Nat × Int
  | 0, _ => (0, 0)
  | fuel + 1, count =>
    let e := order - (count - 1)
    match i.onGrid e with
    | some k => (k, e)
    | none => firstHit i order fuel (count + 1)

end Interval

/-- The shortest decimal of the positive finite double with these magnitude bits: its digits as
a number, and the decimal exponent of the last one. -/
def shortest (bits : Nat) : Nat × Int :=
  let i := Interval.ofBits bits
  i.firstHit (Decimal.orderOf i.value i.den) 17 1

/-- Plain decimals from `0.0001` up to sixteen integral digits, always with a point. -/
def textStyle : Decimal.Style := ⟨-4, 16, true⟩

/-- The shortest text that reads back as the same double. -/
def text (x : Float) : String :=
  if x.isNaN then "nan"
  else
    Decimal.signed (isNegative x) <|
      if x.isInf then "inf"
      else if x == 0 then "0.0"
      else
        let (digits, e) := shortest (magnitudeBits x)
        let chars := Decimal.digitChars digits
        textStyle.write (Decimal.dropTrailingZeros chars) (e + (chars.length - 1 : Nat))

end Binary64
end Mensura
