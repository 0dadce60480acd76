import Mensura.Proofs.Binary64.Power
import Mensura.Proofs.Quantity.Rounding

/-!
# Rounding to the nearest integer

A number is rounded by adding one half to its size and rounding the sum down, where the sum of
doubles is itself rounded.  So the answer is a nearest integer, halves away from zero, for all
finite values but those whose sum is brought up to the next integer (`nearestAway_iff`).

`NamedFunction.callByName_round` says this of the function that programs call.
-/

set_option autoImplicit false

namespace Mensura
namespace Binary64

variable {x : Float} {a v : Rat} {n : Int}

/-! ## The nearest integer -/

/-- A nearest integer, of two that are equally near the one farther from zero. -/
structure NearestAway (n : Int) (v : Rat) : Prop where
  near : |n - v| ≤ 1 / 2
  away : |n - v| = 1 / 2 → |v| < |(n : Rat)|

/-- The integer below a size and one half is nearest to it. -/
theorem nearestAway_floor (a : Rat) (ha : 0 ≤ a) : NearestAway (a + 1 / 2).floor a := by
  have hle := Rat.floor_le (a + 1 / 2)
  have hlt := Rat.lt_floor (x := a + 1 / 2)
  refine ⟨abs_le.mpr ⟨by linarith, by linarith⟩, fun hhalf ↦ ?_⟩
  rcases (abs_eq (by norm_num)).mp hhalf with h | h
  · rw [abs_of_nonneg ha]
    exact lt_of_lt_of_le (by linarith) (le_abs_self _)
  · linarith

/-- What is brought up is brought too far. -/
theorem Misrounded.not_nearestAway (h : Misrounded a) : ¬NearestAway (a.floor + 1) a := by
  rintro ⟨hnear, -⟩
  rcases h with ⟨rfl⟩ | ⟨m, hodd, hlow, hhigh, rfl⟩
  · rw [floor_belowHalf] at hnear
    norm_num at hnear
  · have hfloor : (m : Rat).floor = m := by exact_mod_cast Rat.floor_intCast m
    rw [hfloor] at hnear
    norm_num at hnear

/-- **The sum is rounded down to the nearest integer unless it is brought up.** -/
theorem nearestAway_iff (hd : toDouble a = a) (ha : 0 ≤ a) :
    NearestAway (toDouble (a + 1 / 2)).floor a ↔ ¬Misrounded a := by
  constructor
  · intro hnear h
    rw [floor_toDouble_add_half_of_misrounded h] at hnear
    exact h.not_nearestAway hnear
  · intro h
    rw [floor_toDouble_add_half hd ha h]
    exact nearestAway_floor a ha

theorem NearestAway.neg (h : NearestAway n v) : NearestAway (-n) (-v) := by
  obtain ⟨hnear, haway⟩ := h
  have hsize : |((-n : Int) : Rat) - -v| = |n - v| := by
    rw [Int.cast_neg, ← neg_sub', abs_neg]
  refine ⟨hsize ▸ hnear, fun hhalf ↦ ?_⟩
  rw [Int.cast_neg, abs_neg, abs_neg]
  exact haway (hsize ▸ hhalf)

theorem nearestAway_neg_iff : NearestAway (-n) (-v) ↔ NearestAway n v :=
  ⟨fun h ↦ by simpa using h.neg, .neg⟩

/-! ## Rounding doubles -/

/-- What is rounded down to an integer is a double again. -/
theorem toRat?_ofInt_floor {d : Rat} (hx : toRat? x = some d) (hd : 0 ≤ d) :
    toRat? (ofInt d.floor) = some (d.floor : Rat) := by
  rcases lt_or_ge d (2 ^ 52) with hless | hlarge
  · have hfloor : d.floor < 2 ^ 53 := Rat.floor_lt_iff.mpr (hless.trans (by norm_num))
    exact toRat?_ofInt (by rwa [abs_of_nonneg (Rat.le_floor_iff.mpr (by exact_mod_cast hd))])
  · obtain ⟨m, rfl⟩ := exists_natCast_of_le (toDouble_of_toRat? hx) hlarge
    have hfloor : (m : Rat).floor = m := by exact_mod_cast Rat.floor_intCast m
    rw [hfloor]
    exact toRat?_ofInt_of_held (by exact_mod_cast hx)

end Binary64

namespace Scalar

open Binary64

variable {x : Float} {v : Rat}

/-- A finite double is rounded to an integer of its own sign, or to zero; to the nearest one, halves
away from zero, unless its size is brought up. -/
theorem call_round_finite (hx : toRat? x = some v) :
    ∃ (y : Float) (n : Int), call .round [x] = .ok y ∧ toRat? y = some (n : Rat) ∧ 0 ≤ n * v ∧
      (NearestAway n v ↔ ¬Misrounded |v|) ∧ (Misrounded |v| → |n| = (|v|).floor + 1) := by
  obtain ⟨k, hk⟩ : ∃ k, (toDouble (|v| + 1 / 2)).floor = k := ⟨_, rfl⟩
  have hsum := toRat?_abs_add_half hx
  have hnonneg : 0 ≤ toDouble (|v| + 1 / 2) := (toDouble_pos (by positivity)).le
  have hk' : 0 ≤ k := hk ▸ Rat.le_floor_iff.mpr (by exact_mod_cast hnonneg)
  have hheld := toRat?_ofInt_floor hsum hnonneg
  rw [hk] at hheld
  have hcall : call .round [x] = .ok (copySign (ofInt k) x) := by
    change roundAway x = _
    rw [roundAway, rounded, floor?, hsum, Option.map_some, hk]
    rfl
  have hvalue := toRat?_copySign hheld x
  rw [abs_of_nonneg (by exact_mod_cast hk')] at hvalue
  have hnear : NearestAway k |v| ↔ ¬Misrounded |v| :=
    hk ▸ nearestAway_iff (toDouble_of_toRat? (toRat?_abs hx)) (abs_nonneg v)
  have hfar : Misrounded |v| → |k| = (|v|).floor + 1 := fun h ↦ by
    rw [abs_of_nonneg hk', ← hk, floor_toDouble_add_half_of_misrounded h]
  have hproduct : 0 ≤ k * |v| := mul_nonneg (by exact_mod_cast hk') (abs_nonneg v)
  have hsign : v = (if isNegative x then -1 else 1) * |v| := by
    rw [abs_eq_of_toRat? hx]
    exact eq_sign_mul hx
  generalize |v| = a at *
  cases hneg : isNegative x with
  | false =>
    rw [hneg, if_neg Bool.false_ne_true, one_mul] at hvalue hsign
    subst hsign
    exact ⟨_, k, hcall, hvalue, hproduct, hnear, hfar⟩
  | true =>
    rw [hneg, if_pos rfl, neg_one_mul] at hvalue hsign
    subst hsign
    refine ⟨_, -k, hcall, by exact_mod_cast hvalue, ?_, ?_, by rwa [abs_neg]⟩
    · push_cast
      rwa [neg_mul_neg]
    · rw [nearestAway_neg_iff, hnear]

end Scalar

namespace NamedFunction

open Binary64

/-- **A finite value is rounded to a nearest integer, halves away from zero, unless its size is the
largest double below one half or an odd number between `2 ^ 52` and `2 ^ 53`.**  Those are rounded
to the next integer farther from zero.  The sign is always kept, and the integer becomes a quantity
of the same dimension. -/
theorem callByName_round {q : Quantity Float} {v : Rat} (hv : toRat? q.value = some v) :
    ∃ (y : Float) (n : Int), Scalar.call .round [q.value] = .ok y ∧
      callByName "round" [q] = Quantity.normalize ⟨y, .decimal q.dim 0⟩ ∧
      toRat? y = some (n : Rat) ∧ 0 ≤ n * v ∧
      (NearestAway n v ↔ ¬Misrounded |v|) ∧ (Misrounded |v| → |n| = (|v|).floor + 1) := by
  obtain ⟨y, n, hy, hn, hsign, hnear, hfar⟩ := Scalar.call_round_finite hv
  exact ⟨y, n, hy, Quantity.applyTo_of_call .round hy (isFinite_of_toRat? hn), hn, hsign, hnear,
    hfar⟩

/-- Minus two and a half goes to minus three. -/
theorem callByName_round_minus_half :
    ∃ q : Quantity Float, toRat? q.value = some (-5 / 2) ∧
      ∃ y, Scalar.call .round [q.value] = .ok y ∧ toRat? y = some (-3) := by
  have hv : toRat? (Quantity.ofScalar (-(Scalar.ofDecimal 25 (-1) : Float))).value =
      some (-5 / 2) := by decide +kernel
  obtain ⟨y, n, hy, -, hn, -, hnear, -⟩ := callByName_round hv
  obtain ⟨hclose, haway⟩ := hnear.mpr (by
    rintro (h | ⟨m, -, hlow, -, h⟩)
    · norm_num [abs_div] at h
    · have hlarge : (2 ^ 52 : Rat) ≤ m := by exact_mod_cast hlow
      rw [← h] at hlarge
      norm_num [abs_div] at hlarge)
  have hn' : n = -3 := by
    obtain ⟨hlow, hhigh⟩ := abs_le.mp hclose
    have hleast : (-3 : Rat) ≤ n := by linarith
    have hmost : (n : Rat) ≤ -2 := by linarith
    have hleast' : -3 ≤ n := by exact_mod_cast hleast
    have hmost' : n ≤ -2 := by exact_mod_cast hmost
    rcases hmost'.lt_or_eq with hless | rfl
    · omega
    · norm_num [abs_div] at haway
  exact ⟨_, hv, y, hy, by rw [hn, hn']; norm_num⟩

/-- **A number below one half is rounded to one.** -/
theorem not_every_value_to_nearest : ¬ ∀ (q : Quantity Float) (v : Rat), toRat? q.value = some v →
    ∃ (y : Float) (n : Int), Scalar.call .round [q.value] = .ok y ∧ toRat? y = some (n : Rat) ∧
      NearestAway n v ∧ 0 ≤ n * v := by
  intro h
  have hv : toRat? (Quantity.ofScalar (Scalar.ofDecimal 49999999999999994 (-17) : Float)).value =
      some (1 / 2 - 2⁻¹ ^ 54) := by decide +kernel
  obtain ⟨y, n, hy, hn, ⟨hclose, -⟩, -⟩ := h _ _ hv
  have hone : (Scalar.call .round [(Quantity.ofScalar
      (Scalar.ofDecimal 49999999999999994 (-17) : Float)).value]).toOption.bind toRat? =
        some 1 := by decide +kernel
  rw [hy] at hone
  obtain hn' : (n : Rat) = 1 := Option.some.inj (hn.symm.trans hone)
  rw [hn'] at hclose
  norm_num at hclose

/-- An odd number above `2 ^ 52` is rounded to the next one. -/
example : (Scalar.call .round [Scalar.ofNat 4503599627370497]).toOption.bind toRat? =
    some (4503599627370498 : Rat) := by
  decide +kernel

end NamedFunction
end Mensura
