import Mensura.Error
import Mensura.Text.Class

/-!
# Integers as text

Integers outside expressions: in arguments, in data, in exponents.  Blanks around an integer, a
sign, decimal digits of any script and single underscores between digits are fine.  Integers are
read and written up to `longestInteger` digits; a longer one is a fault, which is found before
anything else that stands behind the digits.
-/

set_option autoImplicit false

namespace Mensura
namespace Text

/-- The most digits of an integer that is read or written. -/
def longestInteger : Nat := 4300

/-- The least natural number with more digits than that. -/
def firstTooLarge : Nat := Nat.pow 10 longestInteger

/-! ## Reading -/

/-- The blanks that may surround a number: all but the information separators. -/
def isNumberBlank (c : Char) : Bool :=
  isBlank c && !(28 ≤ c.toNat && c.toNat ≤ 31)

/-- The digits of a numeral without the single underscores between them; `none` if anything else
stands in it, or nothing at all. -/
def plainDigits? : List Char → Option (List Char)
  | [] => none
  | [c] => if isDecimalDigit c then some [c] else none
  | c :: '_' :: rest => do
    if isDecimalDigit c then return c :: (← plainDigits? rest) else none
  | c :: rest => do
    if isDecimalDigit c then return c :: (← plainDigits? rest) else none

/-- Whether a minus sign stands in front, and what follows a sign. -/
def signAndRest : List Char → Bool × List Char
  | '-' :: rest => (true, rest)
  | '+' :: rest => (false, rest)
  | cs => (false, cs)

/-- An integer. -/
def integer (s : String) : Except Fault Int := do
  let malformed : Fault := .badInteger (quoted s)
  let (negative, body) := signAndRest (s.toList.dropWhile isNumberBlank)
  let run := body.takeWhile fun c ↦ isDecimalDigit c || c = '_'
  let some digits := plainDigits? run | throw malformed
  if longestInteger < digits.length then throw (.integerTooLong digits.length)
  let some size := natOfDigits? digits | throw malformed
  if (body.drop run.length).all isNumberBlank then
    return if negative then -(size : Int) else size
  else throw malformed

/-! ## Writing -/

/-- Whether an integer is short enough to be written. -/
def isWritable (n : Int) : Bool :=
  n.natAbs < firstTooLarge

/-- The text of an integer. -/
def integerText (n : Int) : Except Fault String :=
  if isWritable n then .ok (toString n) else .error .integerTooLarge

end Text
end Mensura
