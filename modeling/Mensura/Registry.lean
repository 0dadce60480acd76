import Mensura.MetricPrefix
import Mensura.Text.Canonical
import Mensura.UnitExpr.Parser

/-!
# Unit registries

A `Registry` knows units by name.  A token is resolved in this order:

1. exactly, as a symbol or one of its other names;
2. as a metric prefix in front of such a name, longest prefix first — unless the unit takes no
   prefix, or the token is one of the words that are never split.

`get` also takes whole unit expressions.
-/

set_option autoImplicit false

namespace Mensura

/-- Units by symbol, further names of them, and the names that take no prefix. -/
structure Registry (α : Type) [Scalar α] where
  units : List (String × PhysUnit α)
  names : List (String × String)
  blocked : List String

namespace Registry

variable {α : Type} [Scalar α]

/-- A unit token in the form in which names are looked up: trimmed and composed. -/
def normalizeSymbol (s : String) : String :=
  Text.canonical (Text.trim s)

/-- The first name that stands for no unit, or that is a unit's symbol itself. -/
def checkNames (units : List (String × PhysUnit α)) : List (String × String) → Except Fault PUnit
  | [] => .ok ⟨⟩
  | (name, target) :: rest =>
    if (units.lookup target).isNone then .error (.aliasTarget name target)
    else if (units.lookup name).isSome then .error (.aliasShadows name)
    else checkNames units rest

/-- The registry of a table of units.  A unit that takes no prefix takes none under any of its
names. -/
def ofTables (units : List (String × PhysUnit α)) (names : List (String × String))
    (unprefixed : List String) : Except Fault (Registry α) := do
  checkNames units names
  let symbols := unprefixed.map normalizeSymbol
  let others := (names.filter fun n ↦ symbols.contains n.2).map Prod.fst
  return ⟨units, names, symbols ++ others⟩

/-- The unit of an exact name. -/
def lookup (r : Registry α) (symbol : String) : Option (PhysUnit α) :=
  r.units.lookup ((r.names.lookup symbol).getD symbol)

/-- Whether a name takes no prefix. -/
def isBlocked (r : Registry α) (symbol : String) : Bool :=
  r.blocked.contains (normalizeSymbol symbol)

/-- Words that start like a prefix and are never split. -/
def neverSplit : List String :=
  ["ampere", "amperes", "amp", "amps", "hour", "hours", "day", "days", "mole", "moles",
    "pascal", "pascals", "coulomb", "coulombs", "tesla", "teslas", "farad", "farads",
    "katal", "katals"]

/-- The ways to split a token into a prefix and something behind it, in the order of trial: the
prefix, its power of ten, the rest. -/
def splits (symbol : String) : List (String × Int × String) :=
  MetricPrefix.tokens.filterMap fun (token, exponent) ↦
    if Text.startsWith symbol token && token.length < symbol.length then
      some (token, exponent, String.ofList (symbol.toList.drop token.length))
    else none

/-- The unit of a token as a prefixed name. -/
def prefixed? (r : Registry α) (symbol : String) : Option (PhysUnit α) :=
  (splits symbol).findSome? fun (_, exponent, rest) ↦
    if r.blocked.contains rest then none
    else (r.lookup rest).map (·.shifted exponent)

/-- The unit of a single token. -/
def resolve (r : Registry α) (token : String) : Result (PhysUnit α) :=
  let symbol := normalizeSymbol token
  if symbol.isEmpty then fail (.badUnit token .empty)
  else
    match r.lookup symbol with
    | some u => .ok u
    | none =>
      if neverSplit.contains symbol then fail (.badUnit token .unknown)
      else
        match r.prefixed? symbol with
        | some u => .ok u
        | none => fail (.badUnit token .unknown)

/-- The unit of an expression. -/
def eval (r : Registry α) (e : UnitExpr) : Result (PhysUnit α) :=
  e.eval r.resolve

/-- Whether a text is more than a single token. -/
def isCompound (text : String) : Bool :=
  (text.toList.any fun c ↦ c = '*' || c = '/' || c = '^' || c = '(') || 1 < Text.wordCount text

/-- The unit of a token or an expression. -/
def get (r : Registry α) (text : String) : Result (PhysUnit α) :=
  if isCompound text then do r.eval (← UnitExpr.ofText text) else r.resolve text

/-- Whether a text names a unit.  Only an unknown unit counts as none: a unit without a value
fails here too. -/
def has (r : Registry α) (text : String) : Result Bool :=
  match r.get text with
  | .ok _ => .ok true
  | .error (.calc (.badUnit _ _)) => .ok false
  | .error e => .error e

end Registry
end Mensura
