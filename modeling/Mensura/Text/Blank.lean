import Mensura.Text.Class

/-!
# Blanks around and between

Trimming, and counting the words that blanks separate.
-/

set_option autoImplicit false

namespace Mensura
namespace Text

/-- The characters without the blanks in front. -/
def trimStart (cs : List Char) : List Char :=
  cs.dropWhile isBlank

/-- The characters without the blanks at the end. -/
def trimEnd (cs : List Char) : List Char :=
  (cs.reverse.dropWhile isBlank).reverse

/-- The characters without the blanks on either side. -/
def trimChars (cs : List Char) : List Char :=
  trimEnd (trimStart cs)

/-- The text without the blanks on either side. -/
def trim (s : String) : String :=
  String.ofList (trimChars s.toList)

/-- The number of maximal runs of characters other than blanks, after a character that was a
blank or not. -/
def countWords (afterBlank : Bool) : List Char → Nat
  | [] => 0
  | c :: rest =>
    if isBlank c then countWords true rest
    else countWords false rest + (if afterBlank then 1 else 0)

/-- The number of words of a text. -/
def wordCount (s : String) : Nat :=
  countWords true s.toList

/-- Whether one list of characters starts with another. -/
def startsWith (s start : String) : Bool :=
  start.toList.isPrefixOf s.toList

end Text
end Mensura
