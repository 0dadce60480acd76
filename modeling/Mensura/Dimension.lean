/-!
# Dimensions

A `Dimension` is a product of powers of the seven base dimensions, with exact rational exponents:
`m^(2/3)` is as good a dimension as `m^2`.

* Multiplying and dividing dimensions adds and subtracts exponents, `pow` scales them.
* `baseUnits` writes the base units of a dimension as plain text, `m g s^-2`; it is empty for a
  plain number.  Mass is counted in grams throughout.
* `brackets` writes the base dimensions themselves, `[L^1][T^-1]`.
-/

set_option autoImplicit false

namespace Mensura

/-- The seven base dimensions, in the order in which all output lists them. -/
inductive Base
  | length | mass | time | current | temperature | amount | luminosity
  deriving DecidableEq, Repr

namespace Base

/-- Every base dimension, in order. -/
def all : List Base := [length, mass, time, current, temperature, amount, luminosity]

/-- The letter of the base dimension. -/
def letter : Base → String
  | length => "L"
  | mass => "M"
  | time => "T"
  | current => "I"
  | temperature => "Θ"
  | amount => "N"
  | luminosity => "J"

/-- The symbol of its base unit. -/
def symbol : Base → String
  | length => "m"
  | mass => "g"
  | time => "s"
  | current => "A"
  | temperature => "K"
  | amount => "mol"
  | luminosity => "cd"

end Base

/-- Rational exponents of the seven base dimensions. -/
structure Dimension where
  length : Rat := 0
  mass : Rat := 0
  time : Rat := 0
  current : Rat := 0
  temperature : Rat := 0
  amount : Rat := 0
  luminosity : Rat := 0
  deriving DecidableEq, Repr

namespace Dimension

/-- The exponent of one base dimension. -/
def exponent (d : Dimension) : Base → Rat
  | .length => d.length
  | .mass => d.mass
  | .time => d.time
  | .current => d.current
  | .temperature => d.temperature
  | .amount => d.amount
  | .luminosity => d.luminosity

/-- The dimension with the given exponents. -/
def ofFunction (f : Base → Rat) : Dimension :=
  ⟨f .length, f .mass, f .time, f .current, f .temperature, f .amount, f .luminosity⟩

@[simp] theorem exponent_ofFunction (f : Base → Rat) (b : Base) :
    (ofFunction f).exponent b = f b := by
  cases b <;> rfl

@[ext] theorem ext_exponent {a b : Dimension} (h : ∀ x, a.exponent x = b.exponent x) : a = b := by
  have h₁ := h .length
  have h₂ := h .mass
  have h₃ := h .time
  have h₄ := h .current
  have h₅ := h .temperature
  have h₆ := h .amount
  have h₇ := h .luminosity
  cases a
  cases b
  simp_all [exponent]

/-- The dimension of a plain number. -/
instance : One Dimension := ⟨{}⟩

instance : Mul Dimension := ⟨fun a b ↦ ofFunction fun x ↦ a.exponent x + b.exponent x⟩

instance : Div Dimension := ⟨fun a b ↦ ofFunction fun x ↦ a.exponent x - b.exponent x⟩

/-- The power of a dimension. -/
def pow (d : Dimension) (r : Rat) : Dimension :=
  ofFunction fun x ↦ d.exponent x * r

@[simp] theorem exponent_one (x : Base) : (1 : Dimension).exponent x = 0 := by
  cases x <;> rfl

@[simp] theorem exponent_mul (a b : Dimension) (x : Base) :
    (a * b).exponent x = a.exponent x + b.exponent x :=
  exponent_ofFunction _ x

@[simp] theorem exponent_div (a b : Dimension) (x : Base) :
    (a / b).exponent x = a.exponent x - b.exponent x :=
  exponent_ofFunction _ x

@[simp] theorem exponent_pow (d : Dimension) (r : Rat) (x : Base) :
    (d.pow r).exponent x = d.exponent x * r :=
  exponent_ofFunction _ x

/-- The dimension with a single base dimension to the first power. -/
def base (b : Base) : Dimension :=
  ofFunction fun x ↦ if x = b then 1 else 0

/-- Whether the dimension is that of a plain number. -/
def isDimensionless (d : Dimension) : Bool :=
  d = 1

/-- The exponents in order. -/
def toList (d : Dimension) : List Rat :=
  Base.all.map d.exponent

/-- The dimension with a list of exponents, which has to name all seven. -/
def ofList? : List Rat → Option Dimension
  | [l, m, t, i, k, n, j] => some ⟨l, m, t, i, k, n, j⟩
  | _ => none

/-- The base dimensions that occur, with their exponents. -/
def factors (d : Dimension) : List (Base × Rat) :=
  (Base.all.map fun b ↦ (b, d.exponent b)).filter fun f ↦ f.2 ≠ 0

/-- The largest absolute value of an exponent. -/
def largestPower (d : Dimension) : Rat :=
  (d.toList.map Rat.abs).foldl (fun most p ↦ if most < p then p else most) 0

/-- An exponent in plain text; a fraction stands between parentheses. -/
def exponentText (r : Rat) : String :=
  if r.den = 1 then toString r.num else "(" ++ toString r.num ++ "/" ++ toString r.den ++ ")"

/-- One factor in plain text. -/
def factorText (f : Base × Rat) : String :=
  if f.2 = 1 then f.1.symbol else f.1.symbol ++ "^" ++ exponentText f.2

/-- The base units of the dimension, separated by blanks. -/
def baseUnits (d : Dimension) : String :=
  " ".intercalate (d.factors.map factorText)

/-- The base dimensions between brackets; `[1]` for a plain number. -/
def brackets (d : Dimension) : String :=
  if d.factors.isEmpty then "[1]"
  else
    String.join <| d.factors.map fun f ↦
      "[" ++ f.1.letter ++ "^" ++ exponentText f.2 ++ "]"

end Dimension
end Mensura
