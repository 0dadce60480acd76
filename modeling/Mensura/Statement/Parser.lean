import Mensura.Expr.Parser
import Mensura.Formula.Parser
import Mensura.Statement

/-!
# Reading statements

A line is tried as each kind of statement in turn: the fixed words, `digits`, `alias`, `ttable`,
then a declaration to print, a value to print, a declaration.  The splitting into parts works on
characters; each `…Parts?` function answers `none` if the line has another form.

A single line feed at the very end of a line is overlooked where a part runs to the end.
-/

set_option autoImplicit false

namespace Mensura
namespace Statement

/-! ## Parts of a line -/

/-- What follows a word at the start of a line. -/
def after? (word : String) (cs : List Char) : Option (List Char) :=
  if word.toList.isPrefixOf cs then some (cs.drop word.length) else none

/-- What follows one or more blanks. -/
def afterBlanks? (cs : List Char) : Option (List Char) :=
  match cs with
  | c :: _ => if Text.isBlank c then some (Text.trimStart cs) else none
  | [] => none

/-- What follows a character, blanks before it dropped. -/
def afterSymbol? (symbol : Char) (cs : List Char) : Option (List Char) :=
  match Text.trimStart cs with
  | c :: rest => if c = symbol then some rest else none
  | [] => none

/-- Nothing, or a final line feed. -/
def atEnd (cs : List Char) : Bool :=
  cs = [] || cs = ['\n']

/-- The rest of a line, which a line feed may only end. -/
def toEnd? (cs : List Char) : Option (List Char) :=
  let line := cs.takeWhile (· ≠ '\n')
  if atEnd (cs.drop line.length) then some line else none

/-- Whether a character may start a name. -/
def startsName (c : Char) : Bool :=
  c.isAlpha || c = '_'

/-- A name — an optional backslash, then a letter or underscore, then letters, digits and
underscores, all of them ASCII — and what follows it. -/
def name? (cs : List Char) : Option (List Char × List Char) :=
  let (slash, body) := match cs with
    | '\\' :: rest => (['\\'], rest)
    | _ => ([], cs)
  match body with
  | c :: rest =>
    if startsName c then
      let more := rest.takeWhile fun c ↦ c.isAlphanum || c = '_'
      some (slash ++ c :: more, rest.drop more.length)
    else none
  | [] => none

/-- Splits at the first equals sign. -/
def atEquals? (cs : List Char) : Option (List Char × List Char) :=
  let left := cs.takeWhile (· ≠ '=')
  match cs.drop left.length with
  | _ :: rest => some (left, rest)
  | [] => none

/-- What a text between other parts comes down to: blanks around it belong to its neighbours, but
one is left if there is nothing else.  There must be something. -/
def inner? (cs : List Char) : Option (List Char) :=
  if cs.isEmpty then none
  else
    let body := Text.trimChars cs
    if body.isEmpty then some (cs.drop (cs.length - 1)) else some body

/-- The hint behind `= ?`. -/
def hintPart? (cs : List Char) : Option (List Char) := do
  toEnd? (Text.trimStart (← afterSymbol? '?' cs))

/-- `digits WORD` -/
def digitsParts? (cs : List Char) : Option (List Char) := do
  let rest ← afterBlanks? (← after? "digits" cs)
  let word := rest.takeWhile fun c ↦ !Text.isBlank c
  if !word.isEmpty && atEnd (rest.drop word.length) then some word else none

/-- `alias NAME TEXT` -/
def aliasParts? (cs : List Char) : Option (List Char × List Char) := do
  let (name, rest) ← name? (← afterBlanks? (← after? "alias" cs))
  let text ← toEnd? (← afterBlanks? rest)
  if text.isEmpty then none else some (name, text)

/-- A text between brackets, blanks before it dropped, and what follows. -/
def bracketed? (cs : List Char) : Option (List Char × List Char) := do
  let rest ← afterSymbol? '[' cs
  let text := rest.takeWhile (· ≠ ']')
  match rest.drop text.length with
  | _ :: rest => some (text, rest)
  | [] => none

/-- `ttable [ARGUMENTS] [FORMULAS]` -/
def tableParts? (cs : List Char) : Option (List Char × List Char) := do
  let (args, rest) ← bracketed? (← after? "ttable" cs)
  let (formulas, rest) ← bracketed? rest
  if atEnd rest then some (args, formulas) else none

/-- `NAME = TEXT = ? HINT` -/
def declarePrintParts? (cs : List Char) : Option (List Char × List Char × List Char) := do
  let (name, rest) ← name? cs
  let (value, rest) ← atEquals? (← afterSymbol? '=' rest)
  some (name, ← inner? value, ← hintPart? rest)

/-- `TEXT = ? HINT`.  Blanks in front stay. -/
def printParts? (cs : List Char) : Option (List Char × List Char) := do
  let (value, rest) ← atEquals? cs
  if value.isEmpty then none
  else
    let body := Text.trimEnd value
    some (if body.isEmpty then value.take 1 else body, ← hintPart? rest)

/-- `NAME = TEXT`.  Blanks at the end stay. -/
def declareParts? (cs : List Char) : Option (List Char × List Char) := do
  let (name, rest) ← name? cs
  let value ← afterSymbol? '=' rest
  if value.isEmpty || value.contains '=' then none
  else
    let body := Text.trimStart value
    some (name, if body.isEmpty then value.drop (value.length - 1) else body)

/-- The parts of a text between commas. -/
def splitCommas (part : List Char) : List Char → List (List Char)
  | [] => [part.reverse]
  | c :: rest =>
    if c = ',' then part.reverse :: splitCommas [] rest else splitCommas (c :: part) rest

/-- The parts between commas that are more than blanks. -/
def commaParts (cs : List Char) : List (List Char) :=
  (splitCommas [] cs).filter fun part ↦ !(Text.trimChars part).isEmpty

/-! ## Statements -/

variable {α : Type} [Scalar α]

/-- The number of decimal places in a `digits` statement. -/
def digitsOf (word : List Char) : Result Nat := do
  let text := String.ofList word
  if word.all Text.isDigit then return (← Text.integer text).toNat
  else fail (.syntaxOf (.digitsNotNumber text))

/-- The hint that a text gives; none if it is blank. -/
def hintOf (cs : List Char) : Result (Option (UnitHint α)) := do
  let text := Text.trimChars cs
  if text.isEmpty then return none
  else return some (← UnitHint.ofText Registry.standard (String.ofList text))

/-- The expression that a part of a line stands for. -/
def exprOf (cs : List Char) : Result (Expr α) :=
  Expr.ofText Registry.standard (String.ofList cs)

/-- The formulas of a truth table. -/
def formulasOf : List (List Char) → Result (List Formula)
  | [] => .ok []
  | part :: rest => do
    match Formula.ofText (String.ofList part) with
    | .ok f => return f :: (← formulasOf rest)
    | .error e => fail e

/-- The truth table of a line that starts with `ttable`. -/
def tableOf (cs : List Char) : Result (Statement α) :=
  match tableParts? cs with
  | none => fail (.syntaxOf .tableShape)
  | some (args, formulas) => do
    let args := (commaParts args).map fun a ↦ String.ofList (Text.trimChars a)
    let formulas ← formulasOf (commaParts formulas)
    if args.isEmpty then fail (.syntaxOf .tableWithoutArguments)
    else return table args formulas

/-- A line with values: a declaration, a value to print, or both. -/
def valueOf (line : String) (cs : List Char) : Result (Statement α) :=
  match declarePrintParts? cs with
  | some (name, value, hint) => do
    let e ← exprOf value
    return declarePrint (String.ofList name) e (← hintOf hint)
  | none =>
    match printParts? cs with
    | some (value, hint) => do
      let e ← exprOf value
      return .print e (← hintOf hint)
    | none =>
      match declareParts? cs with
      | some (name, value) => do return declare (String.ofList name) (← exprOf value)
      | none => fail (.syntaxOf (.unrecognizedStatement line))

/-- The statement of a line. -/
def ofLine (line : String) : Result (Statement α) :=
  let cs := line.toList
  if line = "---" then .ok gap
  else if line = "scientific" then .ok scientific
  else
    match digitsParts? cs with
    | some word => do return digits (← digitsOf word)
    | none =>
      match aliasParts? cs with
      | some (name, text) =>
        .ok (rename (String.ofList name) (String.ofList (Text.trimChars text)))
      | none =>
        if Text.startsWith line "ttable" then tableOf cs else valueOf line cs

end Statement
end Mensura
