import Mensura.Binary64.Basic

/-!
# Doubles that stand for a fraction

`2/3` is no double, but the double nearest to it stands for nothing else of its kind.
`rationalize?` gives that fraction back: the closest one with a denominator up to a bound, provided
that the double nearest to *it* is the one we came from.
-/

set_option autoImplicit false

namespace Mensura
namespace Binary64

/-- Two neighbouring convergents of a continued fraction and what is left to expand. -/
structure Convergents where
  /-- The last convergent but one. -/
  p₀ : Int
  q₀ : Nat
  /-- The last convergent. -/
  p₁ : Int
  q₁ : Nat

/-- Expands the continued fraction of `n / d` as long as the denominators stay within `bound`. -/
def expand (bound : Nat) : (fuel : Nat) → Convergents → (n d : Nat) → Convergents
  | 0, c, _, _ => c
  | fuel + 1, c, n, d =>
    let a := n / d
    let q := c.q₀ + a * c.q₁
    if d = 0 || bound < q then c
    else expand bound fuel ⟨c.p₁, c.q₁, c.p₀ + a * c.p₁, q⟩ d (n % d)

/-- The fraction with a denominator up to `bound` (at least one) that is closest to `r`.  It is
the last convergent within the bound or the last mediant towards the one before; of two equally
close ones, the convergent.  Denominators at least double in two steps. -/
def closestFraction (bound : Nat) (r : Rat) : Rat :=
  if r.den ≤ bound then r
  else
    -- The integral part is the first convergent and takes any sign; the rest is below one.
    let whole := r.floor
    let rest := r - whole
    let c := expand bound (2 * bound.log2 + 2) ⟨1, 0, whole, 1⟩ rest.den rest.num.toNat
    let k := (bound - c.q₀) / c.q₁
    let mediant := mkRat (c.p₀ + k * c.p₁) (c.q₀ + k * c.q₁)
    let convergent := mkRat c.p₁ c.q₁
    if Rat.abs (convergent - r) ≤ Rat.abs (mediant - r) then convergent else mediant

/-- The fraction with a denominator up to `bound` that a double stands for. -/
def rationalize? (bound : Nat) (x : Float) : Option Rat := do
  let r ← toRat? x
  let f := closestFraction bound r
  if ofRat f == x then some f else none

end Binary64
end Mensura
