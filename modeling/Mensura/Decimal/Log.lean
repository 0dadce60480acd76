/-!
# The decimal order of magnitude

`orderOf num den` is the exponent `e` with `10 ^ e ≤ num / den < 10 ^ (e + 1)`, for a positive
quotient of two natural numbers.  It counts digits and never takes a logarithm:

* above one, the digits of the integral part decide;
* below one, so do those of the inverse, rounded up.
-/

set_option autoImplicit false

namespace Mensura
namespace Decimal

/-- How often `n` can be divided by ten before one digit is left, in at most `fuel` steps. -/
def digitsAfterFirst : (fuel n : Nat) → Nat
  | 0, _ => 0
  | fuel + 1, n => if n < 10 then 0 else digitsAfterFirst fuel (n / 10) + 1

/-- The exponent of the largest power of ten that is at most `n` (zero for `n = 0`).  A number
has no more decimal digits than binary ones, so the fuel never runs out. -/
def log10 (n : Nat) : Nat :=
  digitsAfterFirst (n.log2 + 1) n

/-- The decimal exponent of the quotient `num / den`.  For a quotient below one, the inverse
rounded up is one more than `(den - 1) / num`, whence the shape of that branch. -/
def orderOf (num den : Nat) : Int :=
  if den ≤ num then (log10 (num / den) : Int)
  else -(log10 ((den - 1) / num) + 1 : Int)

/-- The quotient nearest to `num / den`; of two equally near ones, the even one. -/
def roundHalfEven (num den : Nat) : Nat :=
  let whole := num / den
  let twice := 2 * (num % den)
  if twice < den then whole
  else if den < twice then whole + 1
  else if whole % 2 = 0 then whole else whole + 1

/-- `num / den` times `10 ^ e`, as a quotient of natural numbers. -/
def shiftRatio (num den : Nat) (e : Int) : Nat × Nat :=
  match e with
  | .ofNat k => (num * Nat.pow 10 k, den)
  | .negSucc k => (num, den * Nat.pow 10 (k + 1))

end Decimal
end Mensura
