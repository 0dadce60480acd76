import Mensura.Proofs.Binary64.FirstDigit
import Mensura.Proofs.Quantity.Exponent
import Mensura.Proofs.Typeset.Denotation

/-!
# The number in front of a power of ten

In scientific notation a value in the unit of a hint is written as a number and a power of ten.  The
power is taken from the value before the number is rounded to its decimal places, so the number is
at least one and may be rounded up to ten.

* `roundHalfEven_lt_iff`: when rounding stays below an even number.
* `coefficient_units`: a size from one to ten is rounded to a number from one to ten; it stays below
  ten exactly if the size lies below ten by more than half a unit of the last place.
* `quantity_coefficient`: what is printed in scientific notation in the unit of a hint.
-/

set_option autoImplicit false

namespace Mensura

/-! ## Rounding below an even number -/

namespace Decimal

/-- **The nearest integer is below an even number** exactly if the quotient is, by more than a
half: half-way below it, the even number itself is taken. -/
theorem roundHalfEven_lt_iff {num den n : Nat} (hden : 0 < den) (hn : n % 2 = 0) :
    roundHalfEven num den < n ↔ (num / den : Rat) < n - 1 / 2 := by
  have hd : (0 : Rat) < den := by exact_mod_cast hden
  have hhalf : (num / den : Rat) < n - 1 / 2 ↔ 2 * num + den < 2 * (n * den) := by
    rw [div_lt_iff₀ hd, ← Nat.cast_lt (α := Rat)]
    push_cast
    constructor <;> intro h <;> linarith
  rw [hhalf, roundHalfEven]
  have hsplit := Nat.mod_add_div num den
  have hmod := Nat.mod_lt num hden
  generalize num / den = whole at *
  generalize num % den = left at *
  rw [Nat.mul_comm] at hsplit
  -- only the even number right above the whole quotient is ever in question
  rcases Nat.lt_trichotomy n (whole + 1) with hlt | rfl | hgt
  · have hle : n * den ≤ whole * den := Nat.mul_le_mul_right den (by omega)
    split_ifs <;> omega
  · rw [Nat.add_mul]
    split_ifs <;> omega
  · have hle : (whole + 2) * den ≤ n * den := Nat.mul_le_mul_right den hgt
    rw [Nat.add_mul] at hle
    split_ifs <;> omega

end Decimal

namespace Typeset

open Binary64

/-! ## Decimals -/

variable {places : Nat} {s : Rat} {n : Int} {x : Float}

/-- A double is written as the units that it is rounded to. -/
theorem fixed_of_toRat? (hx : toRat? x = some s) (hs : s ≠ 0) :
    (Scalar.reading x).fixed places =
      Decimal.signed (units places s < 0) (Decimal.withPoint places (units places s).natAbs) := by
  obtain ⟨negative, num, den, hreading, hsize⟩ := reading_of_toRat? hx
  have hden : 0 < den := Nat.pos_of_ne_zero (by rintro rfl; simp [eq_comm, hs] at hsize)
  have hsign : negative = decide (s < 0) := by
    have hquotient : mkRat num den = |s| := by rw [Rat.mkRat_eq_div, Int.cast_natCast, hsize]
    simp only [toRat?, hreading, hquotient, Option.some.injEq] at hx
    have hpos := abs_pos.mpr hs
    cases negative with
    | true => simpa using (show s < 0 by simp at hx; linarith)
    | false => simpa using (show 0 ≤ s by simp at hx; linarith)
  rw [show Scalar.reading x = reading x from rfl, hreading, hsign]
  exact fixed_eq_units places hden hsize

theorem le_natAbs_units {m : Nat} (h : m ≤ |s| * 10 ^ places) : m ≤ (units places s).natAbs := by
  have hd : (0 : Rat) < s.den := by exact_mod_cast s.den_pos
  rw [← units_quotient, le_div_iff₀ hd] at h
  rw [natAbs_units]
  exact Decimal.le_roundHalfEven s.den_pos (by exact_mod_cast h)

theorem natAbs_units_le {m : Nat} (h : |s| * 10 ^ places ≤ m) : (units places s).natAbs ≤ m := by
  have hd : (0 : Rat) < s.den := by exact_mod_cast s.den_pos
  rw [← units_quotient, div_le_iff₀ hd] at h
  rw [natAbs_units]
  exact Decimal.roundHalfEven_le s.den_pos (by exact_mod_cast h)

theorem natAbs_units_lt_iff {m : Nat} (hm : m % 2 = 0) :
    (units places s).natAbs < m ↔ |s| * 10 ^ places < m - 1 / 2 := by
  rw [natAbs_units, ← units_quotient]
  exact Decimal.roundHalfEven_lt_iff s.den_pos hm

/-- What is written in front of a power of ten for a number `s`: `n` units of the last of so many
decimal places. -/
structure Coefficient (places : Nat) (s : Rat) (n : Int) : Prop where
  nearest : |s * 10 ^ places - n| ≤ 1 / 2
  one_le : 1 ≤ |(n / 10 ^ places : Rat)|
  le_ten : |(n / 10 ^ places : Rat)| ≤ 10
  lt_ten_iff : |(n / 10 ^ places : Rat)| < 10 ↔ |s| < 10 - 1 / 2 / 10 ^ places

/-- **A number whose size is from one to ten** is written with a size from one to ten; it is ten
exactly if the size is within half a unit of the last place of ten. -/
theorem coefficient_units (hlow : 1 ≤ |s|) (hhigh : |s| ≤ 10) :
    Coefficient places s (units places s) := by
  have hten : (0 : Rat) < 10 ^ places := by positivity
  have hsize : |((units places s : Int) / 10 ^ places : Rat)| =
      (units places s).natAbs / 10 ^ places := by
    rw [abs_div, abs_of_pos hten, Nat.cast_natAbs, Int.cast_abs]
  refine ⟨abs_units_sub_le places s, ?_, ?_, ?_⟩ <;> rw [hsize]
  · have hle : 10 ^ places ≤ (units places s).natAbs := by
      refine le_natAbs_units ?_
      push_cast
      exact le_mul_of_one_le_left hten.le hlow
    rw [one_le_div hten]
    exact_mod_cast hle
  · have hle : (units places s).natAbs ≤ 10 * 10 ^ places := by
      refine natAbs_units_le ?_
      push_cast
      exact mul_le_mul_of_nonneg_right hhigh hten.le
    rw [div_le_iff₀ hten]
    exact_mod_cast hle
  · have hlt : (units places s).natAbs < 10 * 10 ^ places ↔
        |s| * 10 ^ places < (10 * 10 ^ places : Nat) - 1 / 2 := natAbs_units_lt_iff (by omega)
    have hscale : |s| < 10 - 1 / 2 / 10 ^ places ↔
        |s| * 10 ^ places < (10 * 10 ^ places : Nat) - 1 / 2 := by
      rw [← mul_lt_mul_iff_left₀ hten, sub_mul, div_mul_cancel₀ _ hten.ne']
      push_cast
      rfl
    rw [div_lt_iff₀ hten, hscale, ← hlt]
    norm_cast

/-! ## Values in the unit of a hint -/

section Hinted

variable {α : Type} [Scalar α]

/-- A value in the unit of a hint. -/
def amountIn (hint : UnitHint α) (q : Quantity α) : α :=
  Scalar.scale10 (q.mantissa * q.unit.multiplier / hint.unit.multiplier)
    (q.unit.decExp - hint.unit.decExp)

/-- The power of ten that stands behind a number in scientific notation, if it is not zero. -/
def powerOf (x : α) : Int :=
  if !Scalar.isZero x && Scalar.isFinite x then Scalar.ilog10 x else 0

/-- Scientific notation in the unit of a hint, with a power of ten or without. -/
theorem quantity_scientific {digits : Int} {hint : UnitHint α} {q : Quantity α}
    (hdim : hint.unit.dim = q.dim) : quantity ⟨some hint, digits, true⟩ q =
      if powerOf (amountIn hint q) = 0 then
        liftM (fixed digits (amountIn hint q)) >>= fun number ↦
          .ok (Text.trim (number ++ " \\ " ++ hint.label))
      else
        liftM (fixed digits (Scalar.scale10 (amountIn hint q) (-powerOf (amountIn hint q)))) >>=
          fun number ↦ .ok (Text.trim (number ++ " \\times " ++
            tenPower (toString (powerOf (amountIn hint q))) ++ " \\ " ++ hint.label)) :=
  if_pos hdim

/-- Nothing is displayed in a unit that measures something else. -/
theorem dim_of_quantity {digits : Int} {hint : UnitHint α} {q : Quantity α} {text : String}
    (h : quantity ⟨some hint, digits, true⟩ q = .ok text) : hint.unit.dim = q.dim := by
  refine Classical.byContradiction fun hdim ↦ ?_
  obtain ⟨_, -, h⟩ := bind_eq_ok.mp ((if_neg hdim).symm.trans h)
  exact fail_ne_ok h

end Hinted

/-- Only finite numbers other than zero have a power of ten. -/
theorem exists_of_powerOf_ne_zero (h : powerOf x ≠ 0) :
    ∃ a, toRat? x = some a ∧ a ≠ 0 ∧ powerOf x = ilog10 x := by
  by_cases hx : (!Scalar.isZero x && Scalar.isFinite x) = true
  · obtain ⟨hzero, hfinite⟩ := Bool.and_eq_true_iff.mp hx
    obtain ⟨a, ha⟩ := isFinite_iff.mp hfinite
    refine ⟨a, ha, ?_, if_pos hx⟩
    rintro rfl
    simp [(isZero_iff ha).mpr rfl] at hzero
  · exact absurd (if_neg hx) h

/-- Which numbers of places there are. -/
theorem fixed_eq_ok_iff {digits : Int} {text : String} : fixed digits x = .ok text ↔
    ∃ places : Nat, digits = places ∧ digits ≤ largestPrecision ∧
      text = (Scalar.reading x).fixed places := by
  constructor
  · intro h
    rw [fixed] at h
    split_ifs at h with hwritable hneg hcount hlarge
    exact ⟨digits.toNat, by omega, by omega, (Except.ok.inj h).symm⟩
  · rintro ⟨places, rfl, hlarge, rfl⟩
    exact fixed_eq hlarge x

/-- Something is displayed in every unit that measures the same, with every number of places. -/
theorem exists_quantity_hinted_iff {digits : Int} {hint : UnitHint Float} {q : Quantity Float} :
    (∃ text, quantity ⟨some hint, digits, true⟩ q = .ok text) ↔
      hint.unit.dim = q.dim ∧ 0 ≤ digits ∧ digits ≤ largestPrecision := by
  constructor
  · rintro ⟨text, h⟩
    have hdim := dim_of_quantity h
    rw [quantity_scientific hdim] at h
    split at h <;>
    · obtain ⟨number, hnumber, -⟩ := bind_eq_ok.mp h
      obtain ⟨places, rfl, hlarge, -⟩ := fixed_eq_ok_iff.mp (liftM_eq_ok.mp hnumber)
      exact ⟨hdim, Int.natCast_nonneg places, hlarge⟩
  · rintro ⟨hdim, hnonneg, hlarge⟩
    obtain ⟨places, rfl⟩ := Int.eq_ofNat_of_zero_le hnonneg
    rw [quantity_scientific hdim]
    simp only [fixed_eq hlarge, liftM_ok, ok_bind]
    split <;> exact ⟨_, rfl⟩

/-- **Scientific notation in the unit of a hint.**  A value is displayed in every unit that measures
the same and with every number of places in the range: as the value itself, or as a number in front
of a power of ten.  The size of that number is from one to ten, and below ten exactly if the double
that it is rounded from lies below ten by more than half a unit of the last place. -/
theorem quantity_coefficient (digits : Int) (hint : UnitHint Float) (q : Quantity Float) :
    ((∃ text, quantity ⟨some hint, digits, true⟩ q = .ok text) ↔
      hint.unit.dim = q.dim ∧ 0 ≤ digits ∧ digits ≤ largestPrecision) ∧
    ∀ text, quantity ⟨some hint, digits, true⟩ q = .ok text →
      ∃ (places : Nat) (k : Int), digits = places ∧ k = powerOf (amountIn hint q) ∧
        ((k = 0 ∧ text = Text.trim ((Scalar.reading (amountIn hint q)).fixed places ++
            " \\ " ++ hint.label)) ∨
          k ≠ 0 ∧ ∃ (s : Rat) (n : Int), toRat? (Scalar.scale10 (amountIn hint q) (-k)) = some s ∧
            Coefficient places s n ∧
            text = Text.trim (Decimal.signed (n < 0) (Decimal.withPoint places n.natAbs) ++
              " \\times " ++ tenPower (toString k) ++ " \\ " ++ hint.label)) := by
  refine ⟨exists_quantity_hinted_iff, fun text h ↦ ?_⟩
  rw [quantity_scientific (dim_of_quantity h)] at h
  generalize amountIn hint q = x at h ⊢
  split at h
  · next hk =>
    obtain ⟨number, hnumber, h⟩ := bind_eq_ok.mp h
    obtain ⟨places, rfl, -, rfl⟩ := fixed_eq_ok_iff.mp (liftM_eq_ok.mp hnumber)
    exact ⟨places, 0, rfl, hk.symm, .inl ⟨rfl, (Except.ok.inj h).symm⟩⟩
  · next hk =>
    obtain ⟨number, hnumber, h⟩ := bind_eq_ok.mp h
    obtain ⟨places, rfl, -, rfl⟩ := fixed_eq_ok_iff.mp (liftM_eq_ok.mp hnumber)
    obtain ⟨a, hx, ha, hpower⟩ := exists_of_powerOf_ne_zero hk
    obtain ⟨s, hs, -, hlow, hhigh, -⟩ := exists_first_digit hx ha
    have hne : s ≠ 0 := abs_pos.mp (zero_lt_one.trans_le hlow)
    rw [← hpower] at hs
    refine ⟨places, _, rfl, rfl, .inr ⟨hk, s, units places s, hs, coefficient_units hlow hhigh, ?_⟩⟩
    rw [← fixed_of_toRat? hs hne]
    exact (Except.ok.inj h).symm

/-! ## Lengths in metres -/

def metre : UnitHint Float :=
  ⟨.decimal (.base .length) 0, "m"⟩

/-- A length. -/
def ofMetres (m : Float) : Quantity Float :=
  ⟨m, metre.unit⟩

/-- Two and a half thousand metres have one digit in front of the point. -/
theorem quantity_coefficient_metres :
    quantity ⟨some metre, 3, true⟩ (ofMetres 2500) = .ok "2.500 \\times 10^\x7b3\x7d \\ m" ∧
      ∃ (s : Rat) (n : Int), Coefficient 3 s n ∧
        toRat? (Scalar.scale10 (amountIn metre (ofMetres 2500)) (-3)) = some s := by
  have htext : quantity ⟨some metre, 3, true⟩ (ofMetres 2500) =
      .ok "2.500 \\times 10^\x7b3\x7d \\ m" := by decide +kernel
  have hpower : powerOf (amountIn metre (ofMetres 2500)) = 3 := by decide +kernel
  refine ⟨htext, ?_⟩
  obtain ⟨places, k, hplaces, rfl, ⟨hzero, -⟩ | ⟨-, s, n, hs, hcoefficient, -⟩⟩ :=
    (quantity_coefficient 3 metre (ofMetres 2500)).2 _ htext
  · rw [hpower] at hzero
    cases hzero
  · rw [hpower] at hs
    obtain rfl : places = 3 := by omega
    exact ⟨s, n, hcoefficient, hs⟩

/-- **The number may be rounded up to ten**, where the power of ten could be one more. -/
theorem coefficient_rounded_to_ten :
    quantity ⟨some metre, 3, true⟩ (ofMetres 99.9999) = .ok "10.000 \\times 10^\x7b1\x7d \\ m" := by
  decide +kernel

end Typeset
end Mensura
