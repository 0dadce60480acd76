/-!
# Metric prefixes

The twenty prefixes from yotta to yocto, each with a name, a symbol and a power of ten, and a few
more spellings in use.  `tokens` lists every spelling in the order in which they are tried in
front of a unit: longest first, so that `deca` is not read as `d` and `da` not as `d`.
-/

set_option autoImplicit false

namespace Mensura

/-- A prefix for powers of ten. -/
structure MetricPrefix where
  name : String
  symbol : String
  exponent : Int
  deriving DecidableEq, Repr

namespace MetricPrefix

/-- All prefixes, largest first. -/
def all : List MetricPrefix := [
  ⟨"yotta", "Y", 24⟩, ⟨"zetta", "Z", 21⟩, ⟨"exa", "E", 18⟩, ⟨"peta", "P", 15⟩,
  ⟨"tera", "T", 12⟩, ⟨"giga", "G", 9⟩, ⟨"mega", "M", 6⟩, ⟨"kilo", "k", 3⟩,
  ⟨"hecto", "h", 2⟩, ⟨"deca", "da", 1⟩, ⟨"deci", "d", -1⟩, ⟨"centi", "c", -2⟩,
  ⟨"milli", "m", -3⟩, ⟨"micro", "µ", -6⟩, ⟨"nano", "n", -9⟩, ⟨"pico", "p", -12⟩,
  ⟨"femto", "f", -15⟩, ⟨"atto", "a", -18⟩, ⟨"zepto", "z", -21⟩, ⟨"yocto", "y", -24⟩]

/-- Spellings besides names and symbols: the Greek letter mu (the symbol is the micro sign), a
plain `u`, and `deka`. -/
def variants : List (String × Int) :=
  [("μ", -6), ("u", -6), ("deka", 1)]

/-- Whether the first spelling is tried before the second: longer ones first, equally long ones
in the order of their code points. -/
def triedBefore (s t : String) : Bool :=
  t.length < s.length || (s.length = t.length && s.toList < t.toList)

/-- Puts a spelling into its place. -/
def insertToken (x : String × Int) : List (String × Int) → List (String × Int)
  | [] => [x]
  | y :: rest => if triedBefore x.1 y.1 then x :: y :: rest else y :: insertToken x rest

/-- Every spelling with its power of ten, in the order of trial. -/
def tokens : List (String × Int) :=
  (all.flatMap (fun p ↦ [(p.name, p.exponent), (p.symbol, p.exponent)]) ++ variants).foldr
    insertToken []

/-- The symbol for a power of ten, if there is a prefix for it. -/
def symbol? (exponent : Int) : Option String :=
  (all.find? (·.exponent = exponent)).map MetricPrefix.symbol

end MetricPrefix
end Mensura
