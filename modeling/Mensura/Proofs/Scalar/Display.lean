import Mensura.Proofs.Binary64.Integer
import Mensura.Proofs.Decimal.General
import Mensura.Proofs.Quantity.Exponent
import Mensura.Proofs.Text.Integer

/-!
# Numbers on the display

A double on the display shows fifteen significant digits of its exact value.  If it lies close to an
integer of so many digits, it is shown as that integer is (`displayText_near`), and such integers
are shown in full (`displayText_intCast`).  So what is shown tells the integer
(`displayText_intCast_injective`).
-/

set_option autoImplicit false

namespace Mensura

/-! ## The display -/

namespace Scalar

open Binary64

variable {x : Float} {a : Rat} {j k : Int}

theorem displayText_ratCast_zero : displayText (0 : Rat) = "0" :=
  if_pos (Exact.isZero_iff.mpr rfl)

theorem displayText_ratCast (hk : k ≠ 0) :
    displayText (k : Rat) = (Reading.finite (decide (k < 0)) k.natAbs 1).general 15 := by
  have hne : (k : Rat) ≠ 0 := by exact_mod_cast hk
  have hreading : reading (k : Rat) = .finite (decide (k < 0)) k.natAbs 1 := by
    change Reading.finite ((k : Rat) < 0) (k : Rat).num.natAbs (k : Rat).den = _
    rw [Rat.num_intCast, Rat.den_intCast]
    simp
  rw [displayText, if_neg (Exact.isZero_iff.not.mpr hne), hreading]

/-- A number closer to another than that is to zero has its sign. -/
theorem neg_iff_of_near {b : Rat} (h : |a - b| < |b|) : a < 0 ↔ b < 0 := by
  rcases le_or_gt 0 b with hb | hb
  · rw [abs_of_nonneg hb] at h
    exact iff_of_false (by linarith [(abs_lt.mp h).1]) hb.not_gt
  · rw [abs_of_neg hb] at h
    exact iff_of_true (by linarith [(abs_lt.mp h).2]) hb

/-- **A double close to an integer of at most fifteen digits is shown as the integer is.** -/
theorem displayText_near (hx : toRat? x = some a) (hk : |k| ≤ 10 ^ 15)
    (hnear : 4 * 10 ^ 15 * |a - k| ≤ |(k : Rat)|) : displayText x = displayText (k : Rat) := by
  rcases eq_or_ne k 0 with rfl | hzero
  · have ha : a = 0 := by
      rw [Int.cast_zero, sub_zero, abs_zero] at hnear
      exact abs_nonpos_iff.mp (by linarith)
    rw [displayText, if_pos ((Binary64.isZero_iff hx).mpr ha), Int.cast_zero,
      displayText_ratCast_zero]
  · have hpos : (0 : Rat) < |(k : Rat)| := abs_pos.mpr (by exact_mod_cast hzero)
    have hnear' : |a - k| < |(k : Rat)| := by linarith
    have ha : a ≠ 0 := by
      rintro rfl
      rw [zero_sub, abs_neg] at hnear'
      exact lt_irrefl _ hnear'
    have hsign : decide (a < 0) = decide (k < 0) := by
      rw [decide_eq_decide, neg_iff_of_near hnear']
      exact Int.cast_lt_zero
    obtain ⟨num, den, hnum, hden, hreading, hvalue⟩ := reading_of_ne_zero hx ha
    have hshown : displayText x = (Reading.finite (decide (a < 0)) num den).general 15 := by
      rw [displayText, if_neg ((Binary64.isZero_iff hx).not.mpr ha)]
      exact congrArg (Reading.general 15) hreading
    rw [hshown, displayText_ratCast hzero, hsign]
    refine Reading.general_near (by norm_num) hnum hden (Int.natAbs_pos.mpr hzero) ?_ ?_
    · rw [Int.abs_eq_natAbs] at hk
      exact_mod_cast hk
    · rw [hvalue, natAbs_cast_eq_abs]
      have hdistance := abs_abs_sub_abs_le a (k : Rat)
      linarith

/-- **Integers of at most fifteen digits are shown in full.** -/
theorem displayText_intCast (hk : |k| < 10 ^ 15) : displayText (k : Rat) = toString k := by
  rcases eq_or_ne k 0 with rfl | hzero
  · exact displayText_ratCast_zero
  · have hsize : k.natAbs < 10 ^ 15 := by
      rw [Int.abs_eq_natAbs] at hk
      exact_mod_cast hk
    rw [displayText_ratCast hzero, Reading.general_natCast (Int.natAbs_pos.mpr hzero) hsize]
    cases k with
    | ofNat n => rfl
    | negSucc n =>
      rw [decide_eq_true (Int.negSucc_lt_zero n)]
      rfl

/-- After them comes a power of ten. -/
theorem displayText_limit : displayText (((10 ^ 15 : Int)) : Rat) = "1e+15" ∧
    displayText (((-10 ^ 15 : Int)) : Rat) = "-1e+15" := by
  decide +kernel

/-- A power of ten is no text of an integer. -/
theorem toString_ne_of_mem {s : String} (hs : 'e' ∈ s.toList) (k : Int) : toString k ≠ s := by
  rintro rfl
  have hdigits (n : Nat) : 'e' ∉ (toString n).toList := fun hmem ↦
    absurd (Text.isDigit_of_mem_toString hmem) (by decide)
  obtain ⟨n, ⟨-, hn⟩ | ⟨-, hn⟩⟩ := Text.toString_int_toList k <;> rw [hn] at hs
  · exact hdigits n hs
  · exact hdigits n ((List.mem_cons.mp hs).resolve_left (by decide))

/-- **What is shown tells an integer of at most fifteen digits, or the number after them.** -/
theorem displayText_intCast_injective (hj : |j| ≤ 10 ^ 15) (hk : |k| ≤ 10 ^ 15)
    (h : displayText (j : Rat) = displayText (k : Rat)) : j = k := by
  obtain ⟨hlimit, hlimit'⟩ := displayText_limit
  have hpower : 'e' ∈ "1e+15".toList ∧ 'e' ∈ "-1e+15".toList := by decide
  have hcases {i : Int} (hi : |i| ≤ 10 ^ 15) : |i| < 10 ^ 15 ∨ i = 10 ^ 15 ∨ i = -10 ^ 15 := by
    rcases hi.lt_or_eq with hless | hequal
    · exact .inl hless
    · exact .inr ((abs_eq (by norm_num)).mp hequal)
  rcases hcases hj with hj | rfl | rfl <;> rcases hcases hk with hk | rfl | rfl
  · rw [displayText_intCast hj, displayText_intCast hk] at h
    exact Text.toString_int_injective (congrArg String.toList h)
  · rw [displayText_intCast hj, hlimit] at h
    exact absurd h (toString_ne_of_mem hpower.1 j)
  · rw [displayText_intCast hj, hlimit'] at h
    exact absurd h (toString_ne_of_mem hpower.2 j)
  · rw [displayText_intCast hk, hlimit] at h
    exact absurd h.symm (toString_ne_of_mem hpower.1 k)
  · rfl
  · rw [hlimit, hlimit'] at h
    exact absurd h (by decide)
  · rw [displayText_intCast hk, hlimit'] at h
    exact absurd h.symm (toString_ne_of_mem hpower.2 k)
  · rw [hlimit, hlimit'] at h
    exact absurd h (by decide)
  · rfl

end Scalar
end Mensura
