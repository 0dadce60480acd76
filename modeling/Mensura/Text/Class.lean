import Mensura.Text.Letters
import Mensura.Text.Numerals
import Mensura.Text.Printable

/-!
# Character classes

What counts as a blank, a letter or a digit, over all of Unicode.  ASCII characters are answered
by comparison alone; the tables are only searched beyond.
-/

set_option autoImplicit false

namespace Mensura
namespace Text

/-- Whether a code point lies in one of the ranges. -/
def inRanges (ranges : List (Nat × Nat)) (n : Nat) : Bool :=
  ranges.any fun (first, last) ↦ first ≤ n && n ≤ last

/-- White space: the blanks and line separators of Unicode, and the four information
separators U+001C to U+001F. -/
def isBlank (c : Char) : Bool :=
  let n := c.toNat
  if n < 0x80 then (9 ≤ n && n ≤ 13) || (28 ≤ n && n ≤ 32)
  else n = 0x85 || n = 0xA0 || n = 0x1680 || (0x2000 ≤ n && n ≤ 0x200A) || n = 0x2028 ||
    n = 0x2029 || n = 0x202F || n = 0x205F || n = 0x3000

/-- Letters of every script. -/
def isLetter (c : Char) : Bool :=
  let n := c.toNat
  if n < 0x80 then (65 ≤ n && n ≤ 90) || (97 ≤ n && n ≤ 122)
  else inRanges letterRanges n

/-- The value of a decimal digit. -/
def decimalValue? (c : Char) : Option Nat :=
  let n := c.toNat
  if n < 0x80 then if 48 ≤ n && n ≤ 57 then some (n - 48) else none
  else (decimalZeros.find? fun z ↦ z ≤ n && n ≤ z + 9).map (n - ·)

/-- Digits a positional numeral may be written with. -/
def isDecimalDigit (c : Char) : Bool :=
  (decimalValue? c).isSome

/-- Digits, also those without positional use, such as superscripts. -/
def isDigit (c : Char) : Bool :=
  isDecimalDigit c || (0x80 ≤ c.toNat && inRanges otherDigitRanges c.toNat)

/-- Letters, digits and all other numerals. -/
def isAlphanumeric (c : Char) : Bool :=
  isLetter c || isDigit c || (0x80 ≤ c.toNat && inRanges otherNumeralRanges c.toNat)

/-- Alphanumeric characters and the underscore. -/
def isWordChar (c : Char) : Bool :=
  isAlphanumeric c || c = '_'

/-- Characters with a visible form, and the plain space. -/
def isPrintable (c : Char) : Bool :=
  let n := c.toNat
  if n < 0x80 then 32 ≤ n && n ≤ 126 else inRanges printableRanges n

/-- The number a string of decimal digits stands for, read on from `start`; `none` if some
character is no decimal digit. -/
def readDigits (start : Nat) : List Char → Option Nat
  | [] => some start
  | c :: rest => do
    let d ← decimalValue? c
    readDigits (10 * start + d) rest

/-- The number that a non-empty string of decimal digits stands for. -/
def natOfDigits? (digits : List Char) : Option Nat :=
  if digits.isEmpty then none else readDigits 0 digits

end Text
end Mensura
