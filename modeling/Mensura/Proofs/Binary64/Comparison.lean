import Mensura.Proofs.Binary64.Arithmetic

/-!
# Comparing doubles

Finite doubles compare as their values do, and sign changes change the sign of the value.
-/

set_option autoImplicit false

open Float.Model Float.Model.UnpackedFloat

namespace Mensura
namespace Binary64

variable {x y : Float} {a b : Rat}

/-! ## Order -/

/-- Of two numbers the one with the greater exponent is the greater. -/
theorem lt_of_exponent_lt {m₁ m₂ : Nat} {e₁ e₂ : Int} (h₁ : Canonical m₁ e₁)
    (h₂ : Canonical m₂ e₂) (he : e₁ < e₂) : (m₁ * 2 ^ e₁ : Rat) < m₂ * 2 ^ e₂ := by
  have hfull : (2 ^ 52 : Rat) ≤ m₂ := by
    have := h₁.least_le
    exact_mod_cast h₂.full.resolve_right (by omega)
  have hm₁ : (m₁ : Rat) < 2 ^ 53 := by exact_mod_cast h₁.lt
  calc (m₁ * 2 ^ e₁ : Rat) < 2 ^ 53 * 2 ^ e₁ := by gcongr
    _ = 2 ^ 52 * 2 ^ (e₁ + 1) := by
        rw [zpow_add₀ (by norm_num)]
        norm_num
        ring
    _ ≤ m₂ * 2 ^ e₂ := by
        gcongr
        · norm_num
        · omega

/-- Exponents decide, and mantissas where those are equal. -/
theorem compare_canonical {m₁ m₂ : Nat} {e₁ e₂ : Int} (h₁ : Canonical m₁ e₁)
    (h₂ : Canonical m₂ e₂) :
    (compare e₁ e₂).then (compare m₁ m₂) = compare (m₁ * 2 ^ e₁ : Rat) (m₂ * 2 ^ e₂) := by
  rcases lt_trichotomy e₁ e₂ with he | rfl | he
  · rw [compare_lt_iff_lt.mpr he, compare_lt_iff_lt.mpr (lt_of_exponent_lt h₁ h₂ he)]
    rfl
  · have htwo : (0 : Rat) < 2 ^ e₁ := by positivity
    rw [compare_eq_iff_eq.mpr rfl]
    rcases lt_trichotomy m₁ m₂ with hm | rfl | hm
    · have hlt : (m₁ * 2 ^ e₁ : Rat) < m₂ * 2 ^ e₁ :=
        mul_lt_mul_of_pos_right (by exact_mod_cast hm) htwo
      rw [compare_lt_iff_lt.mpr hm, compare_lt_iff_lt.mpr hlt]
      rfl
    · rw [compare_eq_iff_eq.mpr rfl, compare_eq_iff_eq.mpr rfl]
      rfl
    · have hgt : (m₂ * 2 ^ e₁ : Rat) < m₁ * 2 ^ e₁ :=
        mul_lt_mul_of_pos_right (by exact_mod_cast hm) htwo
      rw [compare_gt_iff_gt.mpr hm, compare_gt_iff_gt.mpr hgt]
      rfl
  · rw [compare_gt_iff_gt.mpr he, compare_gt_iff_gt.mpr (lt_of_exponent_lt h₂ h₁ he)]
    rfl

theorem compare_neg (a b : Rat) : compare (-a) (-b) = (compare a b).swap := by
  rcases lt_trichotomy a b with h | rfl | h
  · rw [compare_lt_iff_lt.mpr h, compare_gt_iff_gt.mpr (neg_lt_neg h)]
    rfl
  · rw [compare_eq_iff_eq.mpr rfl, compare_eq_iff_eq.mpr rfl]
    rfl
  · rw [compare_gt_iff_gt.mpr h, compare_lt_iff_lt.mpr (neg_lt_neg h)]
    rfl

/-- Finite doubles compare as their values do. -/
theorem compare_unpack (hx : toRat? x = some a) (hy : toRat? y = some b) :
    x.toModel.unpack.compare y.toModel.unpack = some (compare a b) := by
  rcases exists_unpack_of_toRat? hx with ⟨s₁, hu₁, rfl⟩ | ⟨s₁, m₁, e₁, hm₁, hu₁, hc₁, rfl⟩
  · rcases exists_unpack_of_toRat? hy with ⟨s₂, hu₂, rfl⟩ | ⟨s₂, m₂, e₂, hm₂, hu₂, hc₂, rfl⟩
    · rw [hu₁, hu₂, compare_eq_iff_eq.mpr rfl]
      rfl
    · have hpos : (0 : Rat) < m₂ * 2 ^ e₂ := by positivity
      rw [hu₁, hu₂, apply_eq, mul_assoc]
      cases s₂ with
      | negative =>
        rw [compare_gt_iff_gt.mpr (by simpa [unit] using hpos)]
        rfl
      | positive =>
        rw [compare_lt_iff_lt.mpr (by simpa [unit] using hpos)]
        rfl
  · have hpos₁ : (0 : Rat) < m₁ * 2 ^ e₁ := by positivity
    rcases exists_unpack_of_toRat? hy with ⟨s₂, hu₂, rfl⟩ | ⟨s₂, m₂, e₂, hm₂, hu₂, hc₂, rfl⟩
    · rw [hu₁, hu₂, apply_eq, mul_assoc]
      cases s₁ with
      | negative =>
        rw [compare_lt_iff_lt.mpr (by simpa [unit] using hpos₁)]
        rfl
      | positive =>
        rw [compare_gt_iff_gt.mpr (by simpa [unit] using hpos₁)]
        rfl
    · have hpos₂ : (0 : Rat) < m₂ * 2 ^ e₂ := by positivity
      have hnegative : unit .negative = -1 := rfl
      have hpositive : unit .positive = 1 := rfl
      rw [hu₁, hu₂, apply_eq, apply_eq, mul_assoc, mul_assoc]
      cases s₁ with
      | negative =>
        cases s₂ with
        | negative =>
          rw [hnegative, neg_one_mul, neg_one_mul, compare_neg, ← compare_canonical hc₁ hc₂]
          rfl
        | positive =>
          rw [hnegative, hpositive, neg_one_mul, one_mul, compare_lt_iff_lt.mpr (by linarith)]
          rfl
      | positive =>
        cases s₂ with
        | negative =>
          rw [hnegative, hpositive, neg_one_mul, one_mul, compare_gt_iff_gt.mpr (by linarith)]
          rfl
        | positive =>
          rw [hpositive, one_mul, one_mul, ← compare_canonical hc₁ hc₂]
          rfl

theorem beq_iff (hx : toRat? x = some a) (hy : toRat? y = some b) : (x == y) = true ↔ a = b := by
  have hbeq : (x == y) = (x.toModel.unpack.compare y.toModel.unpack == some .eq) := rfl
  rw [hbeq, compare_unpack hx hy, beq_iff_eq, Option.some.injEq, compare_eq_iff_eq]

theorem lt_iff (hx : toRat? x = some a) (hy : toRat? y = some b) : x < y ↔ a < b := by
  have hlt : x < y ↔ (x.toModel.unpack.compare y.toModel.unpack == some .lt) = true := by
    change (decide ((x.toModel.unpack.compare y.toModel.unpack == some .lt) = true)) = true ↔ _
    rw [decide_eq_true_iff]
  rw [hlt, compare_unpack hx hy, beq_iff_eq, Option.some.injEq, compare_lt_iff_lt]

theorem le_iff_compare :
    x ≤ y ↔ (x.toModel.unpack.compare y.toModel.unpack).any (·.isLE) = true := by
  change (decide ((x.toModel.unpack.compare y.toModel.unpack).any (·.isLE) = true)) = true ↔ _
  rw [decide_eq_true_iff]

theorem le_iff (hx : toRat? x = some a) (hy : toRat? y = some b) : x ≤ y ↔ a ≤ b := by
  rw [le_iff_compare, compare_unpack hx hy, Option.any_some, Ordering.isLE_iff_ne_gt]
  exact (not_congr compare_gt_iff_gt).trans not_lt

/-! ## Signs -/

theorem toRat?_neg (hx : toRat? x = some a) : toRat? (-x) = some (-a) := by
  have hneg : -x = Float.ofModel (Float.Model.pack x.toModel.unpack.neg) := rfl
  rcases exists_unpack_of_toRat? hx with ⟨s, hu, rfl⟩ | ⟨s, m, e, hm, hu, hc, rfl⟩
  · rw [hneg, hu, neg_zero]
    exact toRat?_ofModel_pack (u := .zero (-s)) trivial
  · rw [hneg, hu]
    refine (toRat?_ofModel_pack (u := .finite (-s) m e hm) hc).trans ?_
    rw [unpackedValue_finite]
    cases s <;> simp [Sign.apply]

theorem toRat?_abs (hx : toRat? x = some a) : toRat? x.abs = some |a| := by
  have habs : x.abs = Float.ofModel (Float.Model.pack x.toModel.unpack.abs) := rfl
  rcases exists_unpack_of_toRat? hx with ⟨s, hu, rfl⟩ | ⟨s, m, e, hm, hu, hc, rfl⟩
  · rw [habs, hu, abs_zero]
    exact toRat?_ofModel_pack (u := .zero .positive) trivial
  · rw [habs, hu]
    refine (toRat?_ofModel_pack (u := .finite .positive m e hm) hc).trans ?_
    rw [unpackedValue_finite, apply_eq, apply_eq, mul_assoc, mul_assoc, abs_mul, abs_unit, one_mul,
      abs_of_pos (by positivity), unit, one_mul]

theorem isFinite_of_toRat? (hx : toRat? x = some a) : x.isFinite = true := by
  have hfinite : x.isFinite = x.toModel.unpack.isFinite := rfl
  rcases exists_unpack_of_toRat? hx with ⟨s, hu, -⟩ | ⟨s, m, e, hm, hu, -, -⟩
  · rw [hfinite, hu]
    rfl
  · rw [hfinite, hu]
    rfl

/-- The value of a finite double is a double itself. -/
theorem toDouble_of_toRat? (hx : toRat? x = some a) : toDouble a = a := by
  rcases exists_unpack_of_toRat? hx with ⟨s, -, rfl⟩ | ⟨s, m, e, hm, -, hc, rfl⟩
  · exact toDouble_zero
  · refine toDouble_of_digits ?_
    have hlt := hc.lt
    cases s <;> simp [Sign.apply] <;> exact_mod_cast hlt

end Binary64
end Mensura
