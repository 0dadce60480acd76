import Mensura.Error

/-!
# Tokens of expressions

Text is cut into numbers, names and symbols; blanks only separate.  Each token is the slice of
the text at its column (a power written `**` counts as `^`), and remembers whether a blank stands
before it: `f (x)` is not a call and `2 m * 3 m` not a unit `m*m`.

The scan walks over the characters one by one.  At the start of a token it looks ahead for its
length and emits it, then counts its characters off.
-/

set_option autoImplicit false

namespace Mensura

/-- The kinds of tokens; `stop` stands at the end of the text. -/
inductive TokenKind
  | number | name | symbol | stop
  deriving DecidableEq, Repr

/-- A token, where it starts, and whether a blank stands before it. -/
structure Token where
  kind : TokenKind
  text : String
  column : Nat
  spaced : Bool
  deriving DecidableEq, Repr

namespace Token

/-- The number of digits in front. -/
def digitRun (cs : List Char) : Nat :=
  (cs.takeWhile Text.isDigit).length

/-- The length of a sign in front. -/
def signLength : List Char → Nat
  | c :: _ => if c = '+' || c = '-' then 1 else 0
  | [] => 0

/-- The length of an exponent in front; zero if no digits follow its letter. -/
def exponentLength : List Char → Nat
  | c :: rest =>
    let sign := signLength rest
    let digits := digitRun (rest.drop sign)
    if (c = 'e' || c = 'E') && 0 < digits then 1 + sign + digits else 0
  | [] => 0

/-- The length of a point with the digits behind it. -/
def fractionLength : List Char → Nat
  | c :: rest => if c = '.' then 1 + digitRun rest else 0
  | [] => 0

/-- The length of the longest number in front. -/
def numberLength (cs : List Char) : Nat :=
  let whole := digitRun cs
  let fraction := fractionLength (cs.drop whole)
  whole + fraction + exponentLength (cs.drop (whole + fraction))

/-- Whether a number starts here: a digit, or a point before one. -/
def startsNumber : List Char → Bool
  | c :: rest => Text.isDigit c || (c = '.' && rest.head?.any Text.isDigit)
  | [] => false

/-- Whether a name starts here: a letter, an underscore, or a backslash before a letter. -/
def startsName : List Char → Bool
  | c :: rest => Text.isLetter c || c = '_' || (c = '\\' && rest.head?.any Text.isLetter)
  | [] => false

/-- The characters that are symbols by themselves. -/
def symbols : List Char :=
  ['+', '-', '*', '/', '^', '(', ')', ',']

/-- Kind, text and length of the token that starts here. -/
def next? : List Char → Option (TokenKind × String × Nat)
  | [] => none
  | c :: rest =>
    if startsNumber (c :: rest) then
      let n := numberLength (c :: rest)
      some (.number, String.ofList ((c :: rest).take n), n)
    else if startsName (c :: rest) then
      let n := 1 + (rest.takeWhile Text.isWordChar).length
      some (.name, String.ofList ((c :: rest).take n), n)
    else if c = '*' && rest.head? = some '*' then some (.symbol, "^", 2)
    else if symbols.contains c then some (.symbol, String.singleton c, 1)
    else none

/-- Scans the rest of a text: `taken` characters still belong to the last token, `spaced` tells
whether a blank stands before the current column. -/
def scan : (taken column : Nat) → (spaced : Bool) → List Char → Except CalcError (List Token)
  | _, column, spaced, [] => .ok [⟨.stop, "", column, spaced⟩]
  | taken + 1, column, spaced, _ :: rest => scan taken (column + 1) spaced rest
  | 0, column, spaced, c :: rest =>
    if Text.isBlank c then scan 0 (column + 1) true rest
    else
      match next? (c :: rest) with
      | some (kind, text, length) => do
        let tokens ← scan (length - 1) (column + 1) false rest
        return ⟨kind, text, column, spaced⟩ :: tokens
      | none => .error (.syntaxAt (.unexpectedCharacter c) column)

/-- The tokens of a text, the last of them `stop`. -/
def ofText (text : String) : Except CalcError (List Token) :=
  scan 0 0 false text.toList

/-- How errors speak of a token. -/
def shown (t : Token) : Option String :=
  if t.kind = .stop then none else some t.text

/-- Whether the token is a given symbol. -/
def isSymbol (t : Token) (s : String) : Bool :=
  t.kind = .symbol && t.text = s

end Token
end Mensura
