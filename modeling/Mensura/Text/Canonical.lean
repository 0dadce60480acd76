import Mensura.Text.Decomposition

/-!
# Canonical composed form

Two spellings of one character — precomposed, or a base with combining marks — become one:

1. `decompose` takes every character apart, Hangul syllables by arithmetic;
2. `reorder` sorts each run of marks by combining class, keeping the order within a class;
3. `compose` puts bases and marks together again where nothing stands between them.

Text below U+0300 holds no mark and is in composed form already.
-/

set_option autoImplicit false

namespace Mensura
namespace Text

/-! ## The tables -/

/-- The value of a hexadecimal digit in capitals. -/
def hexValue (c : Char) : Nat :=
  if c.isDigit then c.toNat - 48 else c.toNat - 55

/-- Reads a line of entries of hexadecimal numbers: `number` is the one being read, `entry` holds
the numbers of the current entry in reverse. -/
def readEntries (number : Nat) (entry : List Nat) : List Char → List (List Nat)
  | [] => [(number :: entry).reverse]
  | ' ' :: rest => (number :: entry).reverse :: readEntries 0 [] rest
  | ':' :: rest => readEntries 0 (number :: entry) rest
  | c :: rest => readEntries (16 * number + hexValue c) entry rest

/-- Each composite with its two parts. -/
def compositeTable : List (List Nat) :=
  composites.flatMap fun line ↦ readEntries 0 [] line.toList

/-- Each character that decomposes for good, with what it decomposes into. -/
def oneWayTable : List (List Nat) :=
  oneWay.flatMap fun line ↦ readEntries 0 [] line.toList

/-- First and last code point and combining class of each run. -/
def classTable : List (List Nat) :=
  combiningClasses.flatMap fun line ↦ readEntries 0 [] line.toList

/-- The combining class of a code point; zero for characters that start a new cluster. -/
def combiningClass (n : Nat) : Nat :=
  if n < 0x300 then 0
  else
    match classTable.find? fun entry ↦
      match entry with
      | [first, last, _] => first ≤ n && n ≤ last
      | _ => false
    with
    | some [_, _, k] => k
    | _ => 0

/-- What a code point decomposes into in one step; itself if it does not. -/
def parts? (n : Nat) : Option (List Nat) :=
  if n < 0xC0 then none
  else
    let isEntry := fun entry : List Nat ↦ entry.head? == some n
    match compositeTable.find? isEntry <|> oneWayTable.find? isEntry with
    | some (_ :: ps) => some ps
    | _ => none

/-! ## Hangul -/

/-- The first composed syllable. -/
def hangulBase : Nat := 0xAC00

/-- The first leading consonant, the first vowel, and the code point before the first trailing
consonant. -/
def leadBase : Nat := 0x1100
def vowelBase : Nat := 0x1161
def trailBase : Nat := 0x11A7

/-- The consonants and vowels of a composed syllable. -/
def hangulParts? (n : Nat) : Option (List Nat) :=
  if hangulBase ≤ n && n < hangulBase + 19 * 21 * 28 then
    let i := n - hangulBase
    let body := [leadBase + i / 588, vowelBase + i % 588 / 28]
    some (if i % 28 = 0 then body else body ++ [trailBase + i % 28])
  else none

/-- The syllable of a leading consonant and a vowel, or of such a syllable and a trailing
consonant. -/
def hangulComposite? (a b : Nat) : Option Nat :=
  if leadBase ≤ a && a < leadBase + 19 && vowelBase ≤ b && b < vowelBase + 21 then
    some (hangulBase + ((a - leadBase) * 21 + (b - vowelBase)) * 28)
  else if hangulBase ≤ a && a < hangulBase + 19 * 21 * 28 && (a - hangulBase) % 28 = 0 &&
      trailBase < b && b < trailBase + 28 then
    some (a + (b - trailBase))
  else none

/-! ## The three steps -/

/-- The full decomposition of a code point.  No character of the tables is more than four steps
from its last parts. -/
def decomposeFully : (fuel n : Nat) → List Nat
  | 0, n => [n]
  | fuel + 1, n =>
    match hangulParts? n with
    | some ps => ps
    | none =>
      match parts? n with
      | some ps => ps.flatMap (decomposeFully fuel)
      | none => [n]

/-- Every code point taken apart. -/
def decompose (ns : List Nat) : List Nat :=
  ns.flatMap (decomposeFully 8)

/-- Puts a mark in front of a sorted run: before the first that starts a cluster or whose class
is not smaller. -/
def insertMark (n : Nat) : List Nat → List Nat
  | [] => [n]
  | m :: rest =>
    if combiningClass m ≠ 0 && combiningClass m < combiningClass n then m :: insertMark n rest
    else n :: m :: rest

/-- Sorts each run of marks by class, without changing the order within a class. -/
def reorder : List Nat → List Nat
  | [] => []
  | n :: rest => if combiningClass n = 0 then n :: reorder rest else insertMark n (reorder rest)

/-- The composite of two code points. -/
def composite? (a b : Nat) : Option Nat :=
  match hangulComposite? a b with
  | some n => some n
  | none =>
    match compositeTable.find? fun entry ↦ entry.drop 1 == [a, b] with
    | some (n :: _) => some n
    | _ => none

/-- Composes on from a starter with the marks behind it that stay (in reverse).  A character
joins the starter only if no mark of the same or a higher class stands between. -/
def composeFrom (starter : Nat) (marks : List Nat) : List Nat → List Nat
  | [] => starter :: marks.reverse
  | n :: rest =>
    let k := combiningClass n
    let free := match marks with
      | [] => true
      | m :: _ => combiningClass m < k
    match if free then composite? starter n else none with
    | some joined => composeFrom joined marks rest
    | none =>
      if k = 0 then starter :: marks.reverse ++ composeFrom n [] rest
      else composeFrom starter (n :: marks) rest

/-- Composes what can be composed.  Marks before the first starter stay. -/
def compose : List Nat → List Nat
  | [] => []
  | n :: rest => if combiningClass n = 0 then composeFrom n [] rest else n :: compose rest

/-- The canonical composed form of a text. -/
def canonical (s : String) : String :=
  if s.toList.all (·.toNat < 0x300) then s
  else
    String.ofList ((compose (reorder (decompose (s.toList.map Char.toNat)))).map Char.ofNat)

end Text
end Mensura
