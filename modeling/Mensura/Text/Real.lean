import Mensura.Binary64.Basic
import Mensura.Text.Integer

/-!
# Reals as text

A real is written like an integer of any length, and may have a point, an exponent, or be one of
the words for infinity and for no number.
-/

set_option autoImplicit false

namespace Mensura
namespace Text

/-- The characters without the blanks that may surround a number. -/
def trimNumber (cs : List Char) : List Char :=
  ((cs.dropWhile isNumberBlank).reverse.dropWhile isNumberBlank).reverse

/-- The digits before and behind the point; one of the sides may be empty. -/
def pointDigits? (cs : List Char) : Option (List Char × List Char) :=
  let whole := cs.takeWhile (· ≠ '.')
  match whole, cs.drop whole.length with
  | [], _ :: fraction => do return ([], ← plainDigits? fraction)
  | whole, [] => do return (← plainDigits? whole, [])
  | whole, [_] => do return (← plainDigits? whole, [])
  | whole, _ :: fraction => do return (← plainDigits? whole, ← plainDigits? fraction)

/-- The size of a real written in digits. -/
def decimalReal? (cs : List Char) : Option Float := do
  let body := cs.takeWhile fun c ↦ c ≠ 'e' && c ≠ 'E'
  let (whole, fraction) ← pointDigits? body
  let m ← natOfDigits? (whole ++ fraction)
  match cs.drop body.length with
  | [] => return Binary64.ofDecimal m (-(fraction.length : Int))
  | _ :: power =>
    let (negative, power) := signAndRest power
    let n ← natOfDigits? (← plainDigits? power)
    let e : Int := if negative then -(n : Int) else n
    return Binary64.ofDecimal m (e - fraction.length)

/-- A real. -/
def real? (s : String) : Option Float := do
  let (negative, body) := signAndRest (trimNumber s.toList)
  let word := String.ofList (body.map Char.toLower)
  let infinity := Binary64.ofMagnitudeBits false Binary64.infinityBits
  let size ←
    if word = "inf" || word = "infinity" then some infinity
    else if word = "nan" then some (infinity - infinity)
    else decimalReal? body
  return if negative then -size else size

end Text
end Mensura
