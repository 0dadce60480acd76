import Mensura.Text.Class

/-!
# Lines of a text

A line ends at a line feed, a carriage return, both together, or one of the separators that
Unicode and ASCII have besides.  What ends a line belongs to no line, and a text that ends with
it has no empty line behind it.
-/

set_option autoImplicit false

namespace Mensura
namespace Text

/-- The characters that end a line. -/
def isLineEnd (c : Char) : Bool :=
  let n := c.toNat
  (10 ≤ n && n ≤ 13) || (28 ≤ n && n ≤ 30) || n = 0x85 || n = 0x2028 || n = 0x2029

/-- Splits the rest of a text into lines.  `line` holds the current line in reverse, `pending`
whether there is one; `afterReturn` that the character before was a carriage return. -/
def splitLines (line : List Char) (pending afterReturn : Bool) : List Char → List (List Char)
  | [] => if pending then [line.reverse] else []
  | c :: rest =>
    if afterReturn && c = '\n' then splitLines [] false false rest
    else if isLineEnd c then line.reverse :: splitLines [] false (c = '\r') rest
    else splitLines (c :: line) true false rest

/-- The lines of a text. -/
def lines (s : String) : List String :=
  (splitLines [] false false s.toList).map String.ofList

/-- The characters with every carriage return, alone or before a line feed, read as a line
feed. -/
def unifyLineEnds (afterReturn : Bool) : List Char → List Char
  | [] => []
  | c :: rest =>
    if afterReturn && c = '\n' then unifyLineEnds false rest
    else if c = '\r' then '\n' :: unifyLineEnds true rest
    else c :: unifyLineEnds false rest

end Text
end Mensura
