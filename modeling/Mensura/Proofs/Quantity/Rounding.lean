import Mensura.Proofs.Scalar.Display
import Mensura.Proofs.Scalar.Rounding
import Mensura.Quantity.Function

/-!
# Integers with a unit, and their rounding

`Holds q d i` says that a quantity holds the integer `i` in base units of a dimension, with the
mantissa and the power of ten that the integer is taken apart into.  Reading a literal, negating it
and attaching a base unit lead to such quantities, and so does rounding (`applyTo_rounding`).

Normalizing does not look at the dimension (`normalize_withDim`), so everything follows from what is
known of plain numbers.
-/

set_option autoImplicit false

namespace Mensura
namespace Quantity

open Binary64

/-! ## Another dimension -/

section Dimensions

variable {α : Type} [Scalar α]

/-- The same number of base units of another dimension. -/
def withDim (q : Quantity α) (d : Dimension) : Quantity α :=
  ⟨q.mantissa, { q.unit with dim := d }⟩

theorem ofParts_withDim (dim d : Dimension) (e : Int) (x : α) :
    PhysUnit.ofParts d e x = (fun u ↦ { u with dim := d }) <$> PhysUnit.ofParts dim e x := by
  rw [PhysUnit.ofParts, PhysUnit.ofParts]
  split <;> rfl

/-- Normalizing keeps to mantissas, multipliers and exponents. -/
theorem normalize_withDim (q : Quantity α) (d : Dimension) :
    (q.withDim d).normalize = (·.withDim d) <$> q.normalize := by
  have hmantissa : (q.withDim d).mantissa = q.mantissa := rfl
  have hdim : (q.withDim d).dim = d := rfl
  have hmultiplier : (q.withDim d).unit.multiplier = q.unit.multiplier := rfl
  have hexp : (q.withDim d).unit.decExp = q.unit.decExp := rfl
  simp only [normalize, hmantissa, hdim, hmultiplier, hexp, ofParts_withDim q.dim d]
  split
  · rfl
  split
  · rfl
  · generalize (PhysUnit.ofParts q.dim _ _ : Result (PhysUnit α)) = unit
    cases unit <;> rfl

/-- So it is enough to normalize the plain number. -/
theorem exists_normalize_of_withDim {q n : Quantity α} {d : Dimension}
    (h : (q.withDim d).normalize = .ok n) :
    ∃ p, q.normalize = .ok p ∧ p.dim = q.dim ∧ p.withDim d = n := by
  rw [normalize_withDim] at h
  cases hp : q.normalize with
  | error e => rw [hp] at h; cases h
  | ok p =>
    rw [hp] at h
    cases h
    exact ⟨p, rfl, normalize_dim hp, rfl⟩

end Dimensions

/-! ## Integers as they are held -/

/-- The quantity is an integer of some dimension, taken apart into mantissa and power of ten. -/
structure Holds (q : Quantity Float) (d : Dimension) (i : Int) : Prop where
  dim : q.dim = d
  plain : Plain (q.withDim 1) (i.sign * wholeMantissa i.natAbs) (Decimal.log10 i.natAbs)

variable {q : Quantity Float} {d : Dimension} {i : Int}

theorem natAbs_lt (hi : |i| < 2 ^ 53) : i.natAbs < 2 ^ 53 := by
  rw [Int.abs_eq_natAbs] at hi
  exact_mod_cast hi

/-- The mantissa of an integer other than zero has one digit before the point. -/
theorem signed_wholeMantissa_bounds (hne : i ≠ 0) (hi : |i| < 2 ^ 53) :
    1 ≤ |(i.sign * wholeMantissa i.natAbs : Rat)| ∧
      |(i.sign * wholeMantissa i.natAbs : Rat)| < 10 := by
  obtain ⟨hlow, hhigh⟩ := wholeMantissa_bounds (Int.natAbs_pos.mpr hne) (natAbs_lt hi)
  rw [abs_signed (abs_sign_of_ne_zero hne), abs_of_pos (zero_lt_one.trans_le hlow)]
  exact ⟨hlow, hhigh⟩

/-- What is held so is normalized already. -/
theorem exists_holds (hi : |i| < 2 ^ 53) (h : Holds q d i) :
    ∃ p, q.normalize = .ok p ∧ Holds p d i := by
  obtain ⟨n, hn, hplain⟩ : ∃ n, (q.withDim 1).normalize = .ok n ∧
      Plain n (i.sign * wholeMantissa i.natAbs) (Decimal.log10 i.natAbs) := by
    rcases eq_or_ne i 0 with rfl | hne
    · have hzero := h.plain
      rw [Int.sign_zero, Int.cast_zero, zero_mul] at hzero
      exact ⟨_, hzero.normalize_zero, h.plain⟩
    · obtain ⟨hlow, hhigh⟩ := signed_wholeMantissa_bounds hne hi
      exact h.plain.normalize_self hlow hhigh
  obtain ⟨p, hp, hdim, rfl⟩ := exists_normalize_of_withDim hn
  exact ⟨p, hp, hdim.trans h.dim, hplain⟩

/-- A double that is an integer is held so when it has been normalized. -/
theorem exists_holds_of_toRat? {x : Float} (hx : toRat? x = some (i : Rat)) (hi : |i| < 2 ^ 53)
    (d : Dimension) : ∃ p, normalize ⟨x, .decimal d 0⟩ = .ok p ∧ Holds p d i := by
  have hplain : Plain (withDim ⟨x, .decimal d 0⟩ 1) i 0 := ⟨rfl, toRat?_ofNat_one, hx, rfl⟩
  obtain ⟨n, hn, hresult⟩ : ∃ n, (withDim ⟨x, .decimal d 0⟩ 1).normalize = .ok n ∧
      Plain n (i.sign * wholeMantissa i.natAbs) (Decimal.log10 i.natAbs) := by
    rcases eq_or_ne i 0 with rfl | hne
    · rw [Int.cast_zero] at hplain
      refine ⟨_, hplain.normalize_zero, ?_⟩
      rwa [Int.sign_zero, Int.cast_zero, zero_mul]
    · have hpos := Int.natAbs_pos.mpr hne
      obtain ⟨hlow, hhigh⟩ := Decimal.log10_bounds hpos
      have hlog := log10_le_of_lt (natAbs_lt hi)
      obtain ⟨n, hn, hresult⟩ := hplain.normalize (k := Decimal.log10 i.natAbs)
        (by rw [← natAbs_cast_eq_abs, zpow_natCast]; exact_mod_cast hlow)
        (by rw [← natAbs_cast_eq_abs]; exact_mod_cast hhigh) (by omega) (by omega)
      rw [intCast_eq_sign_mul, mul_assoc, toDouble_signed (abs_sign_of_ne_zero hne), zpow_neg,
        zpow_natCast, ← div_eq_mul_inv, zero_add] at hresult
      exact ⟨n, hn, hresult⟩
  obtain ⟨p, hp, hdim, rfl⟩ := exists_normalize_of_withDim hn
  exact ⟨p, hp, hdim, hresult⟩

/-- A literal of a whole number is held so. -/
theorem Plain.holds {n : Nat} (h : Plain q (wholeMantissa n) (Decimal.log10 n)) :
    Holds q 1 n where
  dim := h.dim
  plain := by
    have hmantissa : ((n : Int).sign * wholeMantissa n : Rat) = wholeMantissa n := by
      rcases Nat.eq_zero_or_pos n with rfl | hpos
      · rw [wholeMantissa_zero, mul_zero]
      · rw [Int.sign_natCast_of_ne_zero hpos.ne', Int.cast_one, one_mul]
    rw [Int.natAbs_natCast, hmantissa]
    exact ⟨rfl, h.multiplier, h.mantissa, h.decExp⟩

theorem Holds.neg (h : Holds q d i) (hi : |i| < 2 ^ 53) : ∃ p, q.neg = .ok p ∧ Holds p d (-i) := by
  refine exists_holds (by rwa [abs_neg]) ⟨h.dim, ?_⟩
  rw [Int.natAbs_neg, Int.sign_neg, Int.cast_neg, neg_mul]
  exact ⟨rfl, h.plain.multiplier, toRat?_neg h.plain.mantissa, h.plain.decExp⟩

/-- A base unit gives an integer its dimension. -/
theorem Holds.withUnit {u : PhysUnit Float} (h : Holds q 1 i) (hi : |i| < 2 ^ 53)
    (hexp : u.decExp = 0) (hmultiplier : toRat? u.multiplier = some 1) :
    ∃ p, q.withUnit u = .ok p ∧ Holds p u.dim i := by
  have hmultiplier' : toRat? q.unit.multiplier = some 1 := h.plain.multiplier
  have hproduct : toRat? (q.unit.multiplier * u.multiplier) = some 1 := by
    have hone : toDouble 1 = 1 := by simpa using toDouble_ten_pow (k := 0) (by norm_num)
    rw [toRat?_mul hmultiplier' hmultiplier
      (.inr (Normal.of_bounds (by norm_num) (by norm_num))), mul_one, hone]
  have hfactor := isFactor_of_ne_zero hproduct one_ne_zero
  have hunit : q.unit.mul u = .ok ⟨q.unit.dim * u.dim, q.unit.decExp + u.decExp,
      q.unit.multiplier * u.multiplier, hfactor⟩ := dif_pos hfactor
  rw [Quantity.withUnit, hunit, ok_bind]
  refine exists_holds hi ⟨?_, rfl, hproduct, h.plain.mantissa, ?_⟩
  · change q.dim * u.dim = u.dim
    rw [h.dim]
    ext x
    simp
  · change q.unit.decExp + u.decExp = _
    rw [hexp, add_zero]
    exact h.plain.decExp

/-- **The value of an integer is what comes back of it.** -/
theorem Holds.value (h : Holds q d i) (hi : |i| < 2 ^ 53) :
    toRat? q.value = some (rebuiltInt i) := by
  have hsmall := natAbs_lt hi
  have hvalue : (q.withDim 1).value = q.value := rfl
  rw [← hvalue]
  rcases eq_or_ne i 0 with rfl | hne
  · have hzero : Plain (q.withDim 1) ((1 : Int) * wholeMantissa (0 : Int).natAbs)
        (Decimal.log10 (0 : Int).natAbs) := by
      have hplain := h.plain
      rwa [Int.natAbs_zero, wholeMantissa_zero, mul_zero] at hplain ⊢
    rw [hzero.value_whole rfl hsmall, rebuiltInt, Int.natAbs_zero]
    simp [rebuiltWhole, wholeMantissa_zero, toDouble_zero]
  · exact h.plain.value_whole (abs_sign_of_ne_zero hne) hsmall

/-- **An integer of at most fifteen digits is shown as itself**, although it is multiplied out with
roundings. -/
theorem Holds.displayText_value (h : Holds q d i) (hi : |i| ≤ 10 ^ 15) :
    Scalar.displayText q.value = Scalar.displayText (i : Rat) :=
  Scalar.displayText_near (h.value (hi.trans_lt (by norm_num))) hi (rebuiltInt_near i)

/-! ## Rounding -/

/-- The largest power of ten comes back exactly. -/
theorem rebuiltInt_limit : rebuiltInt (10 ^ 15) = (10 ^ 15 : Int) ∧
    rebuiltInt (-10 ^ 15) = (-10 ^ 15 : Int) := by
  decide +kernel

/-- A rounded value keeps the dimension. -/
theorem applyTo_of_call {f : NamedFunction} {y : Float} (hf : f.IsRounding)
    (hy : Scalar.call f [q.value] = .ok y) (hfinite : Scalar.isFinite y = true) :
    f.applyTo [q] = normalize ⟨y, .decimal q.dim 0⟩ := by
  have haccepts : f.arity.accepts [q].length = true := by cases hf <;> rfl
  have hdim : f.resultDimension [q] = .ok q.dim := by cases hf <;> rfl
  rw [NamedFunction.applyTo, haccepts, hdim]
  simp only [Bool.not_true, Bool.false_eq_true, if_false, ok_bind, List.map_cons, List.map_nil, hy,
    hfinite, if_true]

/-- **An integer is rounded as what comes back of it.**  The result holds an integer of the same
dimension. -/
theorem applyTo_rounding {f : NamedFunction} (hf : f.IsRounding) (h : Holds q d i)
    (hi : |i| ≤ 10 ^ 15) :
    ∃ (p : Quantity Float) (k : Int), f.applyTo [q] = .ok p ∧ Holds p d k ∧ |k| ≤ 10 ^ 15 ∧
      Scalar.call f [rebuiltInt i] = .ok (k : Rat) ∧
      (k = i ↔ Scalar.Keeps f i (rebuiltInt i)) := by
  obtain ⟨y, k, hy, hvalue, hexact, hclose, hkeeps⟩ :=
    Scalar.call_near hf (h.value (hi.trans_lt (by norm_num))) hi (abs_rebuiltInt_sub_le hi)
  have hk : |k| ≤ 10 ^ 15 := by
    rcases hi.lt_or_eq with hless | hequal
    · have htriangle := abs_sub_abs_le_abs_sub k i
      omega
    · have hlimit : rebuiltInt i = i := by
        rcases (abs_eq (by norm_num)).mp hequal with rfl | rfl
        · exact rebuiltInt_limit.1
        · exact rebuiltInt_limit.2
      have hsame : Scalar.Keeps f i (rebuiltInt i) := by
        rw [hlimit]
        cases hf <;> simp [Scalar.Keeps]
      rw [hkeeps.mpr hsame]
      exact hi
  obtain ⟨p, hp, hholds⟩ := exists_holds_of_toRat? hvalue (hk.trans_lt (by norm_num)) d
  refine ⟨p, k, ?_, hholds, hk, hexact, hkeeps⟩
  rw [applyTo_of_call hf hy (isFinite_of_toRat? hvalue), h.dim]
  exact hp

end Quantity
end Mensura
