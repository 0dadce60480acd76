import Mensura.Expr
import Mensura.Expr.Token
import Mensura.Registry.Standard

/-!
# Reading expressions

Operators bind with powers, loosest first:

    + -        1 on the left, 2 on the right
    * /        3, 4
    sign       5 on the right
    unit       6 on the left
    ^          8, 7: to the right

`climb` joins operators to the expression on their left as long as they bind at least as tightly
as asked.  A unit expression behind a value attaches a unit.  Inside one, names side by side
multiply, an exponent is an integer, and `*` or `/` go on with the unit only without a blank
before them: `2 m*s` is two metre seconds, `2 m * s` multiplies by `s`.
-/

set_option autoImplicit false

namespace Mensura
namespace Expr

variable {α : Type} [Scalar α]

/-! ## Numbers -/

/-- Significand, fraction and exponent of a numeral: its text as `m · 10 ^ e`.  Digits without
positional use make no number. -/
def decimalOf? (cs : List Char) : Option (Nat × Int) := do
  let whole := cs.takeWhile Text.isDigit
  let rest := cs.drop whole.length
  let fraction := match rest with
    | '.' :: more => more.takeWhile Text.isDigit
    | _ => []
  let rest := cs.drop (whole.length + Token.fractionLength rest)
  let m ← Text.natOfDigits? (whole ++ fraction)
  match rest with
  | [] => return (m, -(fraction.length : Int))
  | _ :: power =>
    let e ← Text.natOfDigits? (power.drop (Token.signLength power))
    let e : Int := if power.head? = some '-' then -(e : Int) else e
    return (m, e - fraction.length)

/-- The literal of a number token; a number too large to hold is no number. -/
def literalOf (t : Token) : Result (Expr α) :=
  let value : Option (Quantity α) := do
    let (m, e) ← decimalOf? t.text.toList
    (Quantity.ofScalar (Scalar.ofDecimal m e)).normalize.toOption
  match value with
  | some q => .ok (literal q)
  | none => fail (.syntaxAt (.invalidNumber t.text) t.column)

/-! ## Looking ahead -/

/-- The next token.  No list of tokens is used up: the stop is never taken. -/
def peek : List Token → Token
  | t :: _ => t
  | [] => ⟨.stop, "", 0, false⟩

/-- Whether a call's argument list opens here: a parenthesis with no blank before it. -/
def opensCall (ts : List Token) : Bool :=
  (peek ts).isSymbol "(" && !(peek ts).spaced

/-- Whether a unit starts here: a plain name that is not called. -/
def startsUnit : List Token → Bool
  | t :: rest => t.kind = .name && t.text.toList.head? != some '\\' && !opensCall rest
  | [] => false

/-- Takes a symbol. -/
def expect (symbol : String) (ts : List Token) : Result (List Token) :=
  if (peek ts).isSymbol symbol then .ok (ts.drop 1)
  else fail (.syntaxAt (.expected symbol (peek ts).shown) (peek ts).column)

/-! ## Units -/

/-- An integer with an optional sign before it. -/
def signedInteger (ts : List Token) : Result (Int × List Token) := do
  let negative := (peek ts).isSymbol "-"
  let ts := if negative || (peek ts).isSymbol "+" then ts.drop 1 else ts
  let t := peek ts
  if t.kind = .number && t.text.toList.all Text.isDigit then
    let n ← Text.integer t.text
    return (if negative then -n else n, ts.drop 1)
  else fail (.syntaxAt (.expectedUnitExponent t.shown) t.column)

/-- The exponent of a unit, with or without parentheses. -/
def unitExponent (ts : List Token) : Result (Int × List Token) := do
  if (peek ts).isSymbol "(" then
    let (n, ts) ← signedInteger (ts.drop 1)
    return (n, ← expect ")" ts)
  else signedInteger ts

/-- A unit name with its exponent. -/
def unitTerm (ts : List Token) : Result (UnitExpr × List Token) := do
  let name := UnitExpr.name (peek ts).text
  let ts := ts.drop 1
  if (peek ts).isSymbol "^" then
    let (n, ts) ← unitExponent (ts.drop 1)
    return (.pow name n, ts)
  else return (name, ts)

/-- Whether a unit goes on here with a given symbol. -/
def continuesUnit (symbol : String) (ts : List Token) : Bool :=
  (peek ts).isSymbol symbol && !(peek ts).spaced && startsUnit (ts.drop 1)

/-- The terms that follow in a unit expression.  The fuel bounds their number. -/
def moreUnits : (fuel : Nat) → UnitExpr → List Token → Result (UnitExpr × List Token)
  | 0, left, ts => .ok (left, ts)
  | fuel + 1, left, ts => do
    if startsUnit ts then
      let (right, ts) ← unitTerm ts
      moreUnits fuel (.mul left right) ts
    else if continuesUnit "*" ts then
      let (right, ts) ← unitTerm (ts.drop 1)
      moreUnits fuel (.mul left right) ts
    else if continuesUnit "/" ts then
      let (right, ts) ← unitTerm (ts.drop 1)
      moreUnits fuel (.div left right) ts
    else return (left, ts)

/-- A unit expression behind a value. -/
def unitExpr (ts : List Token) : Result (UnitExpr × List Token) := do
  let (first, rest) ← unitTerm ts
  moreUnits ts.length first rest

/-! ## Expressions -/

/-- How tightly a prefix sign binds what follows. -/
def signPower : Nat := 5

/-- How tightly a unit binds what stands before it. -/
def unitPower : Nat := 6

/-- An operator between two operands: the powers with which it binds on either side. -/
structure InfixOperator (α : Type) [Scalar α] where
  left : Nat
  right : Nat
  op : Operator α

/-- The infix operator of a token. -/
def InfixOperator.ofToken? (t : Token) : Option (InfixOperator α) :=
  if t.isSymbol "+" then some ⟨1, 2, .add⟩
  else if t.isSymbol "-" then some ⟨1, 2, .sub⟩
  else if t.isSymbol "*" then some ⟨3, 4, .mul⟩
  else if t.isSymbol "/" then some ⟨3, 4, .div⟩
  else if t.isSymbol "^" then some ⟨8, 7, .pow⟩
  else none

/-- The error where a value is missing. -/
def noValue (ts : List Token) : Result (Expr α × List Token) :=
  fail (.syntaxAt (.expectedValue (peek ts).shown) (peek ts).column)

mutual

/-- An expression whose operators bind at least as tightly as `power`. -/
def expression (r : Registry α) : (fuel power : Nat) → List Token → Result (Expr α × List Token)
  | 0, _, ts => noValue ts
  | fuel + 1, power, ts => do
    let (first, ts) ← operand r fuel ts
    climb r fuel power first ts

/-- A value, with its signs. -/
def operand (r : Registry α) : (fuel : Nat) → List Token → Result (Expr α × List Token)
  | 0, ts => noValue ts
  | fuel + 1, ts => do
    let t := peek ts
    let rest := ts.drop 1
    if t.kind = .number then return (← literalOf t, rest)
    else if t.kind = .name then
      if opensCall rest then
        if (peek (rest.drop 1)).isSymbol ")" then return (call t.text [], rest.drop 2)
        else
          let (args, ts) ← arguments r fuel (rest.drop 1)
          return (call t.text args, ← expect ")" ts)
      else return (ident t.text, rest)
    else if t.isSymbol "(" then
      let (inner, ts) ← expression r fuel 0 rest
      return (inner, ← expect ")" ts)
    else if t.isSymbol "-" then
      let (inner, ts) ← expression r fuel signPower rest
      return (unary .neg inner, ts)
    else if t.isSymbol "+" then expression r fuel signPower rest
    else noValue ts

/-- Joins units and operators to what stands before them. -/
def climb (r : Registry α) :
    (fuel power : Nat) → Expr α → List Token → Result (Expr α × List Token)
  | 0, _, left, ts => .ok (left, ts)
  | fuel + 1, power, left, ts => do
    if startsUnit ts then
      if unitPower < power then return (left, ts)
      else
        let (unit, rest) ← unitExpr ts
        let u ← r.eval unit
        climb r fuel power (unary (.attach u unit.label) left) rest
    else
      match InfixOperator.ofToken? (peek ts) with
      | none => return (left, ts)
      | some op =>
        if op.left < power then return (left, ts)
        else
          let (right, rest) ← expression r fuel op.right (ts.drop 1)
          climb r fuel power (binary op.op left right) rest

/-- One or more arguments, separated by commas. -/
def arguments (r : Registry α) : (fuel : Nat) → List Token → Result (List (Expr α) × List Token)
  | 0, _ => .ok ([], [])
  | fuel + 1, ts => do
    let (first, ts) ← expression r fuel 0 ts
    if (peek ts).isSymbol "," then
      let (more, ts) ← arguments r fuel (ts.drop 1)
      return (first :: more, ts)
    else return ([first], ts)

end

/-- Enough fuel for a number of tokens: of any three steps in a row, one takes a token. -/
def fuelFor (ts : List Token) : Nat :=
  3 * ts.length + 3

/-- A whole list of tokens as one expression. -/
def ofTokens (r : Registry α) (ts : List Token) : Result (Expr α) := do
  let (e, rest) ← expression r (fuelFor ts) 0 ts
  let t := peek rest
  if t.kind = .stop then return e
  else fail (.syntaxAt (.unexpected t.shown) t.column)

/-- The expression a text stands for, its units looked up in a registry. -/
def ofText (r : Registry α) (text : String) : Result (Expr α) := do
  match Token.ofText text with
  | .ok ts => ofTokens r ts
  | .error e => fail e

end Expr
end Mensura
