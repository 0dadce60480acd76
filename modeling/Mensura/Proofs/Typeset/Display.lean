import Mensura.Proofs.Outcome
import Mensura.Typeset.Quantity

/-!
# Values that can be displayed

A value without a hint is displayed in base units, in scientific notation or with a prefix on the
first of them.  Little can go wrong there: an exponent is too long to be written, or the fractional
power of a prefix leaves the range of numbers.  `exists_quantity_iff` says that nothing else does.
-/

set_option autoImplicit false

namespace Mensura
namespace Typeset

variable {α : Type} [Scalar α]

/-- The power of ten that a prefix takes out of a value, in the unit with the given exponent. -/
def prefixShift (q : Quantity α) (p : Rat) : Rat :=
  (prefixPower q.unit.decExp p : Rat) * p

/-- What is to be written of a value can be written, and its prefix can be taken out. -/
structure Displayable (scientific : Bool) (q : Quantity α) : Prop where
  exponent : scientific = true → Text.isWritable q.unit.decExp = true
  dim : q.dim.factors ≠ [] → q.dim.isWritable = true
  scale : scientific = false ∨ q.unit.decExp = 0 → ∀ b p rest, q.dim.factors = (b, p) :: rest →
    (prefixShift q p).den = 1 ∨
      (Scalar.scaleByFraction (q.mantissa * q.unit.multiplier) q.unit.decExp
        (prefixShift q p)).isSome

/-- A number is written with any number of places up to the largest. -/
theorem fixed_eq {digits : Nat} (h : digits ≤ largestPrecision) (x : α) :
    fixed digits x = .ok ((Scalar.reading x).fixed digits) := by
  have hlarge : largestPrecision < Text.firstTooLarge := by decide +kernel
  have hwritable : Text.isWritable digits = true := by
    rw [Text.isWritable, decide_eq_true_eq]
    omega
  have hcount : ¬largestCount < (digits : Int) := by
    have : largestPrecision ≤ largestCount := by decide
    omega
  rw [fixed, if_neg (by simp [hwritable]), if_neg (by omega), if_neg hcount, if_neg (by omega)]
  rfl

theorem exists_fixed {digits : Nat} (h : digits ≤ largestPrecision) (x : α) :
    ∃ s, fixed digits x = .ok s :=
  ⟨_, fixed_eq h x⟩

variable {digits : Nat} (hdigits : digits ≤ largestPrecision) {q : Quantity α}

theorem exists_prefixed_iff (first : String) {d : Dimension} :
    (∃ s, prefixed first d = .ok s) ↔ d.isWritable = true := by
  rw [prefixed, Dimension.checkWritable]
  split
  · next h => exact iff_of_true ⟨_, rfl⟩ h
  · next h => exact iff_of_false nofun h

include hdigits

theorem exists_scaled_iff :
    (∃ s, scaled digits q = .ok s) ↔ Text.isWritable q.unit.decExp = true := by
  obtain ⟨s, hs⟩ := exists_fixed hdigits (q.mantissa * q.unit.multiplier)
  rw [scaled, hs, ok_bind, Text.integerText]
  split
  · next h => exact iff_of_true ⟨_, rfl⟩ h
  · next h => exact iff_of_false nofun h

/-- A number in front of the base units. -/
theorem exists_number_iff {x : α} {d : Dimension} {first : String} :
    (∃ s, (do return (← fixed digits x) ++ " \\ " ++ (← prefixed first d) : Result String) =
      .ok s) ↔ d.isWritable = true := by
  obtain ⟨number, hnumber⟩ := exists_fixed hdigits x
  rw [hnumber, liftM_ok, ok_bind, ← exists_prefixed_iff first]
  cases prefixed first d with
  | ok s => exact iff_of_true ⟨_, rfl⟩ ⟨s, rfl⟩
  | error f => exact iff_of_false nofun nofun

theorem exists_withPrefix_iff {p : Rat} :
    (∃ s, withPrefix digits q p = .ok s) ↔ q.dim.isWritable = true ∧
      ((prefixShift q p).den = 1 ∨ (Scalar.scaleByFraction (q.mantissa * q.unit.multiplier)
        q.unit.decExp (prefixShift q p)).isSome) := by
  simp only [withPrefix, ok_bind, prefixShift]
  split
  · next hden => rw [exists_number_iff hdigits, and_iff_left (.inl hden)]
  · next hden =>
    rw [or_iff_right hden]
    split
    · next x hx =>
      rw [exists_number_iff hdigits, hx, Option.isSome_some, and_iff_left rfl]
    · next hx =>
      rw [hx]
      exact iff_of_false (by simp) (by simp)

/-- In scientific notation the base units are written behind the power of ten. -/
theorem exists_scientific_iff :
    (∃ s, (do return (← scaled digits q) ++ " \\ " ++ (← dimension q.dim) : Result String) =
      .ok s) ↔ Text.isWritable q.unit.decExp = true ∧ q.dim.isWritable = true := by
  rw [← exists_scaled_iff hdigits, ← exists_prefixed_iff "", dimension]
  cases scaled digits q with
  | error f => exact iff_of_false nofun nofun
  | ok number =>
    cases prefixed "" q.dim with
    | error f => exact iff_of_false nofun nofun
    | ok s => exact iff_of_true ⟨_, rfl⟩ ⟨⟨_, rfl⟩, _, rfl⟩

/-- **A value is displayed exactly if it can be**, with any number of places up to the largest. -/
theorem exists_quantity_iff (scientific : Bool) :
    (∃ s, quantity ⟨none, digits, scientific⟩ q = .ok s) ↔ Displayable scientific q := by
  have hzero : Text.isWritable 0 = true := by decide +kernel
  simp only [quantity, inBaseUnits]
  split
  · next hfactors =>
    split
    · next hscientific =>
      simp only [Bool.and_eq_true, decide_eq_true_eq] at hscientific
      simp only [liftM_eq_ok, exists_scaled_iff hdigits]
      exact ⟨fun h ↦ ⟨fun _ ↦ h, absurd hfactors, by simp [hfactors]⟩,
        fun h ↦ h.exponent hscientific.1⟩
    · next hplain =>
      simp only [liftM_eq_ok]
      refine iff_of_true (exists_fixed hdigits _)
        ⟨fun hscientific ↦ ?_, absurd hfactors, by simp [hfactors]⟩
      rw [show q.unit.decExp = 0 by simpa [hscientific] using hplain]
      exact hzero
  · next b p rest hfactors =>
    have hne : q.dim.factors ≠ [] := by simp [hfactors]
    split
    · next hscientific =>
      simp only [Bool.and_eq_true, decide_eq_true_eq] at hscientific
      rw [exists_scientific_iff hdigits]
      refine ⟨fun h ↦ ⟨fun _ ↦ h.1, fun _ ↦ h.2, fun hcase ↦ ?_⟩,
        fun h ↦ ⟨h.exponent hscientific.1, h.dim hne⟩⟩
      simp [hscientific] at hcase
    · next hplain =>
      have hcase : scientific = false ∨ q.unit.decExp = 0 := by
        cases scientific
        · exact .inl rfl
        · simpa using hplain
      rw [exists_withPrefix_iff hdigits]
      refine ⟨fun h ↦ ⟨fun hscientific ↦ ?_, fun _ ↦ h.1, fun _ b' p' rest' h' ↦ ?_⟩,
        fun h ↦ ⟨h.dim hne, h.scale hcase b p rest hfactors⟩⟩
      · rw [show q.unit.decExp = 0 by simpa [hscientific] using hcase]
        exact hzero
      · rw [hfactors] at h'
        cases h'
        exact h.2

end Typeset
end Mensura
