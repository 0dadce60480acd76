import Mensura.Proofs.Binary64.Integer
import Mensura.Proofs.Binary64.OneHalf
import Mensura.Scalar.Binary64
import Mensura.Scalar.Exact

/-!
# Rounding to integers

Doubles are rounded down and up to the integers that their exact values are rounded to
(`call_floor`, `call_ceil`).  Rounding to the nearest integer adds one half with a rounding of its
own, which does no harm close to an integer (`call_round`).

A number close to an integer `i` is not always rounded to `i`: that depends on the side it lies on
and on the function, as `Keeps` says.
-/

set_option autoImplicit false

namespace Mensura

/-- The functions that round to integers. -/
inductive NamedFunction.IsRounding : NamedFunction → Prop
  | floor : IsRounding .floor
  | ceil : IsRounding .ceil
  | round : IsRounding .round

namespace Scalar

open Binary64

/-- On which side of an integer a number has to lie to be rounded to it, if it is close to it. -/
def Keeps (f : NamedFunction) (i : Int) (a : Rat) : Prop :=
  match f with
  | .floor => (i : Rat) ≤ a
  | .ceil => a ≤ i
  | _ => True

variable {x : Float} {a : Rat} {i : Int}

/-! ## Rounding down and up -/

theorem call_floor (hx : toRat? x = some a) (ha : |a| ≤ 2 ^ 52) :
    ∃ y, call .floor [x] = .ok y ∧ toRat? y = some (a.floor : Rat) := by
  have hsize : |a.floor| < 2 ^ 53 := by
    have hcast : |(a.floor : Rat)| < 2 ^ 53 := by
      rw [abs_lt]
      constructor <;> linarith [abs_le.mp ha, Rat.floor_le a, Rat.lt_floor (x := a)]
    exact_mod_cast hcast
  refine ⟨ofInt a.floor, ?_, toRat?_ofInt hsize⟩
  change rounded floor? x = _
  rw [rounded, floor?, hx]
  rfl

theorem call_ceil (hx : toRat? x = some a) (ha : |a| ≤ 2 ^ 52) :
    ∃ y, call .ceil [x] = .ok y ∧ toRat? y = some (a.ceil : Rat) := by
  have hsize : |a.ceil| < 2 ^ 53 := by
    have hcast : |(a.ceil : Rat)| < 2 ^ 53 := by
      rw [abs_lt]
      constructor <;> linarith [abs_le.mp ha, Rat.le_ceil (x := a), Rat.ceil_lt (x := a)]
    exact_mod_cast hcast
  refine ⟨ofInt a.ceil, ?_, toRat?_ofInt hsize⟩
  change rounded ceil? x = _
  rw [rounded, ceil?, hx]
  rfl

/-! ## Rounding to the nearest integer -/

/-- One half more than the size of a number close to an integer. -/
theorem toRat?_add_half (hx : toRat? x = some a) (hi : |i| ≤ 10 ^ 15) (hnear : |a - i| ≤ 1 / 4) :
    ∃ b, toRat? (x.abs + 0.5) = some b ∧ b.floor = |i| := by
  have hbound : |(i : Rat)| ≤ 10 ^ 15 := by exact_mod_cast hi
  obtain ⟨hlow, hhigh⟩ := abs_le.mp ((abs_abs_sub_abs_le a i).trans hnear)
  obtain ⟨herror, herror'⟩ :=
    abs_le.mp (abs_toDouble_sub_le_of_pos (by positivity : 0 < |a| + 1 / 2))
  norm_num at herror herror'
  refine ⟨_, toRat?_abs_add_half hx, floor_eq_of_bounds ?_ ?_⟩
  · push_cast
    norm_num
    linarith
  · push_cast
    norm_num
    linarith

theorem call_round (hx : toRat? x = some a) (hi : |i| ≤ 10 ^ 15) (hnear : |a - i| ≤ 1 / 4) :
    ∃ y, call .round [x] = .ok y ∧ toRat? y = some (i : Rat) := by
  obtain ⟨b, hb, hfloor⟩ := toRat?_add_half hx hi hnear
  have hsize : |(|i|)| < 2 ^ 53 := by
    rw [abs_abs]
    exact hi.trans_lt (by norm_num)
  refine ⟨copySign (ofInt |i|) x, ?_, ?_⟩
  · change roundAway x = _
    rw [roundAway, rounded, floor?, hb, Option.map_some, hfloor]
    rfl
  · rw [toRat?_copySign (toRat?_ofInt hsize), Int.cast_abs, abs_abs]
    rcases lt_trichotomy i 0 with hneg | rfl | hpos
    · have hless : (i : Rat) ≤ -1 := by exact_mod_cast (by omega : i ≤ -1)
      have ha : a < 0 := by linarith [(abs_le.mp hnear).2]
      rw [isNegative_eq hx ha.ne, decide_eq_true ha, if_pos rfl, abs_of_neg (by linarith)]
      ring_nf
    · simp
    · have hmore : (1 : Rat) ≤ i := by exact_mod_cast hpos
      have ha : 0 < a := by linarith [(abs_le.mp hnear).1]
      rw [isNegative_eq hx ha.ne', decide_eq_false ha.not_gt, if_neg Bool.false_ne_true,
        abs_of_pos (by linarith), one_mul]

/-- The exact number is rounded to the integer it is close to. -/
theorem roundAway_eq (hnear : |a - i| ≤ 1 / 4) : Exact.roundAway a = i := by
  obtain ⟨hlow, hhigh⟩ := abs_le.mp ((abs_abs_sub_abs_le a i).trans hnear)
  have hfloor : (Rat.abs a + 1 / 2).floor = |i| := by
    rw [ratAbs_eq]
    refine floor_eq_of_bounds ?_ ?_
    · push_cast
      linarith
    · push_cast
      linarith
  rw [Exact.roundAway, hfloor, Int.cast_abs]
  obtain ⟨hleft, hright⟩ := abs_le.mp hnear
  rcases lt_trichotomy i 0 with hneg | rfl | hpos
  · have hless : (i : Rat) ≤ -1 := by exact_mod_cast (by omega : i ≤ -1)
    rw [if_pos (by linarith), abs_of_neg (by linarith), neg_neg]
  · simp
  · have hmore : (1 : Rat) ≤ i := by exact_mod_cast hpos
    rw [if_neg (by linarith), abs_of_pos (by linarith)]

/-! ## Numbers close to integers -/

theorem floor_of_near (hnear : |a - i| ≤ 1 / 4) :
    a.floor = if (i : Rat) ≤ a then i else i - 1 := by
  obtain ⟨hlow, hhigh⟩ := abs_le.mp hnear
  split
  · next hle => exact floor_eq_of_bounds hle (by linarith)
  · next hlt =>
    refine floor_eq_of_bounds ?_ ?_ <;> push_cast <;> linarith

theorem ceil_of_near (hnear : |a - i| ≤ 1 / 4) :
    a.ceil = if a ≤ (i : Rat) then i else i + 1 := by
  have hneg : |-a - (-i : Int)| ≤ 1 / 4 := by
    rw [Int.cast_neg, ← neg_sub', abs_neg]
    exact hnear
  rw [Rat.ceil_eq_neg_floor_neg, floor_of_near hneg, Int.cast_neg]
  simp only [neg_le_neg_iff]
  split <;> ring

/-- **A double close to an integer is rounded as its exact value is**, to the integer or to one next
to it. -/
theorem call_near {f : NamedFunction} (hf : f.IsRounding) (hx : toRat? x = some a)
    (hi : |i| ≤ 10 ^ 15) (hnear : |a - i| ≤ 1 / 4) :
    ∃ (y : Float) (k : Int), call f [x] = .ok y ∧ toRat? y = some (k : Rat) ∧
      call f [a] = .ok (k : Rat) ∧ |k - i| ≤ 1 ∧ (k = i ↔ Keeps f i a) := by
  have hsize : |a| ≤ 2 ^ 52 := by
    have hbound : |(i : Rat)| ≤ 10 ^ 15 := by exact_mod_cast hi
    have hdistance := abs_sub_abs_le_abs_sub a (i : Rat)
    norm_num
    linarith
  cases hf with
  | floor =>
    obtain ⟨y, hy, hvalue⟩ := call_floor hx hsize
    refine ⟨y, a.floor, hy, hvalue, rfl, ?_⟩
    rw [floor_of_near hnear]
    split
    · next hle => simpa [Keeps] using hle
    · next hlt => simpa [Keeps] using hlt
  | ceil =>
    obtain ⟨y, hy, hvalue⟩ := call_ceil hx hsize
    refine ⟨y, a.ceil, hy, hvalue, rfl, ?_⟩
    rw [ceil_of_near hnear]
    split
    · next hle => simpa [Keeps] using hle
    · next hlt => simpa [Keeps] using hlt
  | round =>
    obtain ⟨y, hy, hvalue⟩ := call_round hx hi hnear
    refine ⟨y, i, hy, hvalue, ?_, by simp, by simp [Keeps]⟩
    exact congrArg Except.ok (roundAway_eq hnear)

end Scalar
end Mensura
