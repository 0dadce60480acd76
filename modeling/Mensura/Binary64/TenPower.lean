import Mensura.Binary64.Basic
import Mensura.Error

/-!
# Powers of ten

Moving a double across powers of ten.  `10 ^ 22` is the largest power of ten that is itself a
double, so longer shifts go in steps of twenty-two, and negative ones divide instead of
multiplying by an inexact `0.1`:

* `scale10 x n` is `x · 10 ^ n`, with one rounding for each step;
* `ilog10 x` is the shift that brings `x` back between one and ten.
-/

set_option autoImplicit false

namespace Mensura
namespace Binary64

/-- The largest `k` for which `10 ^ k` is a double. -/
def exactTenPower : Nat := 22

/-- `10 ^ k`, exact for `k` up to `exactTenPower`. -/
def tenPower (k : Nat) : Float :=
  nearest false (Nat.pow 10 k) 1

/-- `x` times `10 ^ exactTenPower`, `steps` times over. -/
def scaleUp : (steps : Nat) → Float → Float
  | 0, x => x
  | steps + 1, x => scaleUp steps (x * tenPower exactTenPower)

/-- `x` divided by `10 ^ exactTenPower`, `steps` times over. -/
def scaleDown : (steps : Nat) → Float → Float
  | 0, x => x
  | steps + 1, x => scaleDown steps (x / tenPower exactTenPower)

/-- After this many full steps every double has become zero or infinite, and stays so. -/
def enoughSteps : Nat := 32

/-- The full steps of a shift by `n > 0` places. -/
def fullSteps (n : Nat) : Nat :=
  min ((n - 1) / exactTenPower) enoughSteps

/-- The places that the full steps of a shift by `n > 0` leave over. -/
def restPlaces (n : Nat) : Nat :=
  (n - 1) % exactTenPower + 1

/-- `x · 10 ^ n`. -/
def scale10 (x : Float) (n : Int) : Float :=
  if n = 0 || x == 0 then x
  else if 0 < n then scaleUp (fullSteps n.natAbs) x * tenPower (restPlaces n.natAbs)
  else scaleDown (fullSteps n.natAbs) x / tenPower (restPlaces n.natAbs)

/-- The floor of the decimal logarithm of `num / den`, the logarithm being a double itself: so
close below `10 ^ n` that `n` is the double nearest to it, the answer is `n` already.  The
doubles around `n` lie about `n` parts in `2 ^ 53` apart. -/
def logFloor (num den : Nat) : Int :=
  let next := Decimal.orderOf num den + 1
  let (n, d) := Decimal.shiftRatio num den (-next)
  if (d - n) * Nat.pow 2 53 ≤ next.natAbs * d then next else next - 1

/-- The decimal exponent of a finite double other than zero (zero for all others): the floor of
its logarithm, corrected where the double scaled by it falls outside one to ten. -/
def ilog10 (x : Float) : Int :=
  match reading x with
  | .finite _ num den =>
    if num = 0 then 0
    else
      let e := logFloor num den
      let m := scale10 x.abs (-e)
      if 10 ≤ m then e + 1 else if m < 1 then e - 1 else e
  | _ => 0

/-- The decimal exponent of any double; a fault where there is none. -/
def ilog10? (x : Float) : Except Fault Int :=
  if x.isNaN then .error .undefinedToInteger
  else if x.isInf then .error .outOfRange
  else if x == 0 then .error .logarithmOfZero
  else .ok (ilog10 x)

end Binary64
end Mensura
