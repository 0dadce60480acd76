import Mensura.Formula

/-!
# Reading formulas

Words and parentheses are read by climbing: a connective takes the formula on its left as long as
it binds at least as tightly as asked, and one that binds strictly tighter on its right.  `not`
takes a proposition, a parenthesis or another `not`.
-/

set_option autoImplicit false

namespace Mensura
namespace Formula

/-- A word or parenthesis and where it starts. -/
structure Word where
  text : String
  column : Nat
  deriving DecidableEq, Repr

/-- Whether a character may start a word. -/
def startsWord (c : Char) : Bool :=
  Text.isAlphanumeric c || c = '_' || c = '\\'

/-- Cuts a text into words.  `taken` characters still belong to the last one. -/
def scan : (taken column : Nat) → List Char → Except CalcError (List Word)
  | _, _, [] => .ok []
  | taken + 1, column, _ :: rest => scan taken (column + 1) rest
  | 0, column, c :: rest =>
    if Text.isBlank c then scan 0 (column + 1) rest
    else if c = '(' || c = ')' then do
      let words ← scan 0 (column + 1) rest
      return ⟨String.singleton c, column⟩ :: words
    else if startsWord c then do
      let more := rest.takeWhile Text.isWordChar
      let words ← scan more.length (column + 1) rest
      return ⟨String.ofList (c :: more), column⟩ :: words
    else .error (.syntaxAt (.unexpectedCharacterInFormula c) column)

/-- The words of a text. -/
def words (text : String) : Except CalcError (List Word) :=
  scan 0 0 text.toList

/-- How tightly `not` binds. -/
def notPower : Nat := 9

/-- The column of the next word; `stop` is that behind the text. -/
def columnOf (stop : Nat) : List Word → Nat
  | w :: _ => w.column
  | [] => stop

mutual

/-- A formula whose connectives bind at least as tightly as `power`. -/
def formula (stop : Nat) :
    (fuel power : Nat) → List Word → Except CalcError (Formula × List Word)
  | 0, _, ws => .error (.syntaxAt (.expectedProposition none) (columnOf stop ws))
  | fuel + 1, power, ws => do
    let (first, ws) ← operand stop fuel ws
    climb stop fuel power first ws

/-- A proposition, a parenthesis or a negation. -/
def operand (stop : Nat) : (fuel : Nat) → List Word → Except CalcError (Formula × List Word)
  | _, [] => .error (.syntaxAt (.expectedProposition none) stop)
  | 0, w :: _ => .error (.syntaxAt (.expectedProposition none) w.column)
  | fuel + 1, w :: rest => do
    if w.text = "(" then
      let (inner, ws) ← formula stop fuel 0 rest
      match ws with
      | ⟨")", _⟩ :: ws => return (paren inner, ws)
      | ws => throw (.syntaxAt .expectedClosing (columnOf stop ws))
    else if w.text = notWord then
      let (inner, ws) ← formula stop fuel notPower rest
      return (not inner, ws)
    else if w.text = ")" || (Connective.ofWord? w.text).isSome then
      throw (.syntaxAt (.expectedProposition (some w.text)) w.column)
    else return (prop w.text, rest)

/-- Joins connectives to what stands before them. -/
def climb (stop : Nat) :
    (fuel power : Nat) → Formula → List Word → Except CalcError (Formula × List Word)
  | 0, _, left, ws => .ok (left, ws)
  | _, _, left, [] => .ok (left, [])
  | fuel + 1, power, left, w :: rest => do
    if w.text = ")" then return (left, w :: rest)
    else if w.text = notWord then throw (.syntaxAt (.notBinary w.text) w.column)
    else
      match Connective.ofWord? w.text with
      | none => throw (.syntaxAt (.expectedOperator w.text) w.column)
      | some op =>
        if op.power < power then return (left, w :: rest)
        else
          let (right, ws) ← formula stop fuel (op.power + 1) rest
          climb stop fuel power (binary op left right) ws

end

/-- Enough fuel for a number of words: of any two steps in a row, one takes a word. -/
def fuelFor (ws : List Word) : Nat :=
  2 * ws.length + 2

/-- The formula a text stands for. -/
def ofText (text : String) : Except CalcError Formula := do
  let ws ← words text
  let (f, rest) ← formula text.length (fuelFor ws) 0 ws
  match rest with
  | [] => return f
  | w :: _ => throw (.syntaxAt (.unexpected (some w.text)) w.column)

end Formula
end Mensura
