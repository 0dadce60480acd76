import Mensura.UnitExpr

/-!
# Reading unit expressions

The text is cut into tokens, then read by descent along the grammar

    expression := term (['*' | '/'] term)*
    term       := factor [('^' | '**') exponent]
    factor     := NAME | '(' expression ')'
    exponent   := INTEGER | '(' INTEGER ')'

Terms side by side multiply.  Products and quotients associate to the left.  An integer takes a
sign that stands directly before it.
-/

set_option autoImplicit false

namespace Mensura
namespace UnitExpr

/-! ## Tokens -/

/-- The kinds of tokens. -/
inductive TokenKind
  | operator | integer | name
  deriving DecidableEq, Repr

/-- A token and the position where it starts. -/
structure Token where
  kind : TokenKind
  text : String
  position : Nat
  deriving DecidableEq, Repr

/-- The single-character operators. -/
def isOperator (c : Char) : Bool :=
  c = '*' || c = '/' || c = '^' || c = '(' || c = ')'

/-- Whether a character may start a unit name: a letter, or a numeral that is no decimal
digit. -/
def startsName (c : Char) : Bool :=
  Text.isAlphanumeric c && !Text.isDecimalDigit c

/-- The number of decimal digits in front. -/
def digitRun (cs : List Char) : Nat :=
  (cs.takeWhile Text.isDecimalDigit).length

/-- The kind and length of the token that a text starts with. -/
def lexeme? : List Char → Option (TokenKind × Nat)
  | [] => none
  | c :: rest =>
    if c = '*' && rest.head? = some '*' then some (.operator, 2)
    else if isOperator c then some (.operator, 1)
    else if Text.isDecimalDigit c then some (.integer, 1 + digitRun rest)
    else if (c = '+' || c = '-') && 0 < digitRun rest then some (.integer, 1 + digitRun rest)
    else if startsName c then some (.name, 1 + (rest.takeWhile Text.isWordChar).length)
    else none

/-- Cuts a text into tokens, blanks between them dropped.  `taken` characters still belong to
the last token; `blanks` is where the blanks before the current position start. -/
def scan (text : String) : (taken blanks position : Nat) → List Char → Result (List Token)
  | _, _, _, [] => .ok []
  | taken + 1, _, position, _ :: rest => scan text taken (position + 1) (position + 1) rest
  | 0, blanks, position, c :: rest =>
    if Text.isBlank c then scan text 0 blanks (position + 1) rest
    else
      match lexeme? (c :: rest) with
      | some (kind, length) => do
        let tokens ← scan text (length - 1) (position + 1) (position + 1) rest
        return ⟨kind, String.ofList ((c :: rest).take length), position⟩ :: tokens
      | none =>
        fail <| .badUnit text <| .unexpectedInput blanks <|
          Text.trim (String.ofList ((text.toList.drop blanks).take 10))

/-- The tokens of a text. -/
def tokens (text : String) : Result (List Token) :=
  scan text 0 0 0 (Text.trimEnd text.toList)

/-! ## Grammar -/

/-- What an input is read for: where it ends, and the text that errors quote. -/
structure Source where
  text : String

/-- The position behind the text. -/
def Source.stop (s : Source) : Nat :=
  s.text.length

/-- The error for something else in the place of what is expected. -/
def Source.expected {α : Type} (s : Source) (what : String) : List Token → Result α
  | [] => fail (.badUnit s.text (.expected what s.stop none))
  | t :: _ => fail (.badUnit s.text (.expected what t.position (some t.text)))

/-- Whether the next token is the operator of the given text. -/
def atOperator (op : String) : List Token → Bool
  | ⟨.operator, text, _⟩ :: _ => text = op
  | _ => false

/-- An integer token. -/
def integer (s : Source) : List Token → Result (Int × List Token)
  | ⟨.integer, text, _⟩ :: rest => do return (← Text.integer text, rest)
  | ts => s.expected "'int'" ts

/-- A closing parenthesis. -/
def closing (s : Source) : List Token → Result (List Token)
  | ts => if atOperator ")" ts then .ok (ts.drop 1) else s.expected "')'" ts

/-- An exponent, with or without parentheses. -/
def exponent (s : Source) (ts : List Token) : Result (Int × List Token) := do
  if atOperator "(" ts then
    let (n, ts) ← integer s (ts.drop 1)
    return (n, ← closing s ts)
  else integer s ts

/-- An exponent behind a factor, if there is one. -/
def powered (s : Source) (base : UnitExpr) (ts : List Token) : Result (UnitExpr × List Token) := do
  if atOperator "^" ts || atOperator "**" ts then
    let (n, ts) ← exponent s (ts.drop 1)
    return (.pow base n, ts)
  else return (base, ts)

/-- Whether another term may start here. -/
def startsTerm : List Token → Bool
  | ⟨.name, _, _⟩ :: _ => true
  | ts => atOperator "(" ts

mutual

/-- A term.  The fuel bounds the nesting of parentheses. -/
def term (s : Source) : (fuel : Nat) → List Token → Result (UnitExpr × List Token)
  | _, ⟨.name, text, _⟩ :: rest => powered s (.name text) rest
  | 0, ts => s.expected "unit name or '('" ts
  | fuel + 1, ts => do
    if atOperator "(" ts then
      let (inner, ts) ← expression s fuel (ts.drop 1)
      powered s inner (← closing s ts)
    else s.expected "unit name or '('" ts

/-- A first term and all that follow. -/
def expression (s : Source) : (fuel : Nat) → List Token → Result (UnitExpr × List Token)
  | 0, ts => s.expected "unit name or '('" ts
  | fuel + 1, ts => do
    let (first, ts) ← term s fuel ts
    moreTerms s fuel first ts

/-- The terms that follow, joined to what is read already. -/
def moreTerms (s : Source) :
    (fuel : Nat) → UnitExpr → List Token → Result (UnitExpr × List Token)
  | 0, left, ts => .ok (left, ts)
  | fuel + 1, left, ts => do
    if atOperator "*" ts then
      let (right, ts) ← term s fuel (ts.drop 1)
      moreTerms s fuel (.mul left right) ts
    else if atOperator "/" ts then
      let (right, ts) ← term s fuel (ts.drop 1)
      moreTerms s fuel (.div left right) ts
    else if startsTerm ts then
      let (right, ts) ← term s fuel ts
      moreTerms s fuel (.mul left right) ts
    else return (left, ts)

end

/-- Enough fuel to read a number of tokens: each step of the descent that takes none is followed
by one that does. -/
def fuelFor (ts : List Token) : Nat :=
  2 * ts.length + 2

/-- A whole list of tokens as one expression. -/
def ofTokens (text : String) (ts : List Token) : Result UnitExpr := do
  let (e, rest) ← expression ⟨text⟩ (fuelFor ts) ts
  match rest with
  | [] => return e
  | t :: _ => fail (.badUnit text (.unexpectedToken t.text t.position))

/-- Characters that no unit expression holds. -/
def disallowed : List Char :=
  ['~', '!', '@', '#', '$', '%', '&', '|', '=', ',', ':', ';', '?', '<', '>', '\'', '"', '\x60',
    '\\', '[', ']', '{', '}', '.']

/-- The expression a text stands for. -/
def ofText (text : String) : Result UnitExpr := do
  if text.toList.any disallowed.contains then fail (.badUnit text .disallowedCharacter)
  else ofTokens text (← tokens text)

end UnitExpr
end Mensura
