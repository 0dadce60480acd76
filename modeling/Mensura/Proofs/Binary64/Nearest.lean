import Mensura.Proofs.Binary64.Range

/-!
# Nearest doubles by their bits

The magnitude bits of doubles count them: `bitsValue` is strictly increasing, and from one double to
the next a size at most doubles.  The bits that `nearestBits` finds are those of `nearestDouble`, up
to infinity, whose bits stand for `2 ^ 1024` (`bitsValue_nearestBits`).
-/

set_option autoImplicit false

namespace Mensura
namespace Binary64

variable {num den bits : Nat} {r : Rat}

/-! ## What bits stand for -/

/-- The size that magnitude bits stand for. -/
def bitsValue (bits : Nat) : Rat :=
  significand bits * 2 ^ binaryExponent bits

theorem bitsValue_zero : bitsValue 0 = 0 := by
  have hsignificand : significand 0 = 0 := rfl
  rw [bitsValue, hsignificand, Nat.cast_zero, zero_mul]

theorem bitsValue_of_subnormal {m : Nat} (hm : m < 4503599627370496) :
    bitsValue m = m * 2 ^ (-1074 : Int) := by
  rw [bitsValue, significand_of_subnormal hm, binaryExponent_of_subnormal hm]

theorem bitsValue_of_normal {e m : Nat} (he : e ≠ 0) (hm : m < 4503599627370496) :
    bitsValue (e * 4503599627370496 + m) =
      (m + 4503599627370496 : Nat) * 2 ^ ((e : Int) - 1075) := by
  rw [bitsValue, significand_of_normal he hm, binaryExponent_of_normal he hm]

theorem bitsValue_infinityBits : bitsValue infinityBits = 2 ^ (1024 : Int) := by
  have hbits : infinityBits = 2047 * 4503599627370496 + 0 := rfl
  rw [hbits, bitsValue_of_normal (by decide) (by decide)]
  calc ((0 + 4503599627370496 : Nat) : Rat) * 2 ^ (((2047 : Nat) : Int) - 1075)
      = 2 ^ (52 : Int) * 2 ^ (972 : Int) := by norm_num
    _ = 2 ^ (1024 : Int) := (zpow_add₀ (by norm_num) 52 972).symm

/-- The next double is one unit in the last place larger. -/
theorem bitsValue_succ (bits : Nat) :
    bitsValue (bits + 1) = bitsValue bits + 2 ^ binaryExponent bits := by
  obtain ⟨e, m, hm, rfl⟩ : ∃ e m, m < 4503599627370496 ∧ bits = e * 4503599627370496 + m :=
    ⟨bits / 4503599627370496, bits % 4503599627370496, Nat.mod_lt _ (by decide),
      (Nat.div_add_mod' _ _).symm⟩
  rcases Nat.lt_or_eq_of_le (Nat.succ_le_of_lt hm) with hless | hlast
  · -- The exponent field stays.
    rcases Nat.eq_zero_or_pos e with rfl | he
    · rw [Nat.zero_mul, Nat.zero_add, bitsValue_of_subnormal hless, bitsValue_of_subnormal hm,
        binaryExponent_of_subnormal hm, Nat.cast_add_one, add_one_mul]
    · rw [Nat.add_assoc, bitsValue_of_normal he.ne' hless, bitsValue_of_normal he.ne' hm,
        binaryExponent_of_normal he.ne' hm]
      push_cast
      ring
  · -- The fraction is full and goes over into the exponent field.
    have hnext : e * 4503599627370496 + m + 1 = (e + 1) * 4503599627370496 + 0 := by omega
    obtain rfl : m = 4503599627370495 := by omega
    rw [hnext, bitsValue_of_normal e.succ_ne_zero (by decide)]
    rcases Nat.eq_zero_or_pos e with rfl | he
    · rw [Nat.zero_mul, Nat.zero_add, bitsValue_of_subnormal hm, binaryExponent_of_subnormal hm,
        show ((0 + 1 : Nat) : Int) - 1075 = -1074 from rfl, ← add_one_mul]
      congr 1
      norm_num
    · rw [bitsValue_of_normal he.ne' hm, binaryExponent_of_normal he.ne' hm,
        show ((e + 1 : Nat) : Int) - 1075 = (e : Int) - 1075 + 1 by push_cast; ring,
        zpow_add_one₀ (by norm_num)]
      push_cast
      ring

theorem bitsValue_strictMono : StrictMono bitsValue := by
  refine strictMono_nat_of_lt_succ fun bits ↦ ?_
  rw [bitsValue_succ]
  exact lt_add_of_pos_right _ (by positivity)

theorem bitsValue_pos (h : bits ≠ 0) : 0 < bitsValue bits := by
  rw [← bitsValue_zero]
  exact bitsValue_strictMono (Nat.pos_of_ne_zero h)

/-- The next double is at most twice as large. -/
theorem bitsValue_succ_le (h : bits ≠ 0) : bitsValue (bits + 1) ≤ 2 * bitsValue bits := by
  have hone : (1 : Rat) ≤ significand bits := by exact_mod_cast significand_pos h
  rw [bitsValue_succ, two_mul]
  refine add_le_add_right ?_ _
  exact le_mul_of_one_le_left (by positivity) hone

/-- The least double. -/
theorem two_pow_le_bitsValue (h : bits ≠ 0) : 2 ^ (-1074 : Int) ≤ bitsValue bits := by
  have hone : bitsValue 1 = 2 ^ (-1074 : Int) := by
    rw [bitsValue_of_subnormal (by decide), Nat.cast_one, one_mul]
  rw [← hone]
  exact bitsValue_strictMono.monotone (Nat.one_le_iff_ne_zero.mpr h)

theorem toRat?_ofBits (h : bits < infinityBits) :
    toRat? (ofMagnitudeBits false bits) = some (bitsValue bits) := by
  rw [toRat?_ofMagnitudeBits h, if_neg Bool.false_ne_true, one_mul, bitsValue]

/-! ## The nearest double -/

theorem nearestBits_of_pos (hnum : 0 < num) {e : Int}
    (he : max (binaryOrder num den - 52) (-1074) = e) :
    nearestBits num den =
      min ((e + 1074).toNat * leadingBit + nearestUnits num den e) infinityBits := by
  rw [nearestBits, if_neg hnum.ne']
  simp only [he]
  rfl

theorem nearestUnits_negSucc (num den k : Nat) :
    nearestUnits num den (Int.negSucc k) = Decimal.roundHalfEven (num * Nat.pow 2 (k + 1)) den ∧
      (num / den : Rat) = (num * Nat.pow 2 (k + 1) : Nat) / den * 2 ^ Int.negSucc k := by
  refine ⟨rfl, ?_⟩
  rw [zpow_negSucc, Nat.pow_eq]
  push_cast
  field_simp

/-- Below the normal range the units of a size are counted. -/
theorem nearestUnits_small (hden : 0 < den) (hsmall : (num / den : Rat) < 2 ^ (-1022 : Int)) :
    nearestUnits num den (-1074) ≤ 2 ^ 52 ∧
      nearestDouble (num / den) = nearestUnits num den (-1074) * 2 ^ (-1074 : Int) := by
  obtain ⟨hunits, hquotient⟩ := nearestUnits_negSucc num den 1073
  rw [show Int.negSucc 1073 = -1074 from rfl] at hunits hquotient
  generalize num * Nat.pow 2 (1073 + 1) = units at hunits hquotient
  have hsplit : (2 : Rat) ^ (-1022 : Int) = 2 ^ (52 : Int) * 2 ^ (-1074 : Int) :=
    zpow_add₀ (by norm_num) 52 (-1074)
  rw [hunits, hquotient]
  rw [hquotient] at hsmall
  refine ⟨?_, nearestDouble_of_lt hden hsmall⟩
  rw [hsplit] at hsmall
  have hless := lt_of_mul_lt_mul_right hsmall (by positivity)
  rw [div_lt_iff₀ (by exact_mod_cast hden)] at hless
  exact Decimal.roundHalfEven_le hden (by exact_mod_cast hless.le)

/-- **The nearest bits are those of the nearest double**, up to infinity. -/
theorem bitsValue_nearestBits (num : Nat) (hden : 0 < den) :
    bitsValue (nearestBits num den) = min (nearestDouble (num / den)) (2 ^ (1024 : Int)) := by
  rcases Nat.eq_zero_or_pos num with rfl | hnum
  · have hbits : nearestBits 0 den = 0 := by rw [nearestBits, if_pos rfl]
    rw [hbits, bitsValue_zero, Nat.cast_zero, zero_div, nearestDouble_zero]
    exact (min_eq_left (by positivity)).symm
  have hnonneg : (0 : Rat) ≤ num / den := by positivity
  obtain ⟨hlow, hhigh⟩ := binaryOrder_bounds hnum hden
  suffices hunits : ∃ e, max (binaryOrder num den - 52) (-1074) = e ∧
      bitsValue ((e + 1074).toNat * leadingBit + nearestUnits num den e) =
        nearestDouble (num / den) by
    obtain ⟨e, he, hvalue⟩ := hunits
    rw [nearestBits_of_pos hnum he, bitsValue_strictMono.monotone.map_min, hvalue,
      bitsValue_infinityBits]
  rcases lt_or_ge (num / den : Rat) (2 ^ (-1022 : Int)) with hless | hleast
  · have horder := (zpow_lt_zpow_iff_right₀ (by norm_num)).mp (hlow.trans_lt hless)
    obtain ⟨hfew, hvalue⟩ := nearestUnits_small hden hless
    refine ⟨-1074, by omega, ?_⟩
    rw [hvalue, show ((-1074 : Int) + 1074).toNat * leadingBit = 0 from rfl, Nat.zero_add]
    rcases Nat.lt_or_eq_of_le hfew with hsubnormal | hleading
    · exact bitsValue_of_subnormal hsubnormal
    · have hfirst := value_of_bits (m := 2 ^ 52) (e := -1074) le_rfl (by decide) le_rfl
      rw [show ((-1074 : Int) + 1074).toNat * leadingBit + 2 ^ 52 = 2 ^ 52 from rfl] at hfirst
      rw [hleading, bitsValue, hfirst]
  · have horder := (zpow_lt_zpow_iff_right₀ (by norm_num)).mp (hleast.trans_lt hhigh)
    obtain ⟨e, he⟩ : ∃ e, binaryOrder num den = 52 + e := ⟨binaryOrder num den - 52, by ring⟩
    rw [he, zpow_add₀ (by norm_num)] at hlow
    rw [he, show 52 + e + 1 = 53 + e by ring, zpow_add₀ (by norm_num)] at hhigh
    obtain ⟨hunits, hunits', hvalue⟩ := nearestUnits_bounds (e := e) hden (by exact_mod_cast hlow)
      (by exact_mod_cast hhigh)
    refine ⟨e, by omega, ?_⟩
    rw [bitsValue, value_of_bits hunits hunits' (by omega), hvalue,
      nearestDouble_of_le (by rwa [abs_of_nonneg hnonneg])]

theorem nearestBits_le (num den : Nat) : nearestBits num den ≤ infinityBits := by
  rw [nearestBits]
  split
  · exact Nat.zero_le _
  · exact min_le_right _ _

theorem nearestDouble_nonneg (hr : 0 ≤ r) : 0 ≤ nearestDouble r := by
  rcases hr.eq_or_lt with rfl | hpos
  · rw [nearestDouble_zero]
  · rcases lt_or_ge |r| (2 ^ (-1022 : Int)) with hless | hleast
    · rw [nearestDouble, if_pos hless, if_neg (not_lt.mpr hr), one_mul]
      positivity
    · rw [nearestDouble_of_le hleast]
      exact (toDouble_pos hpos).le

theorem toRat?_infinityBits (negative : Bool) :
    toRat? (ofMagnitudeBits negative infinityBits) = none := by
  cases negative <;> decide +kernel

/-- The double nearest to a quotient, or that there is none. -/
theorem toRat?_nearest_eq (negative : Bool) (num : Nat) (hden : 0 < den) :
    toRat? (nearest negative num den) =
      finite ((if negative then -1 else 1) * nearestDouble (num / den)) := by
  have hnonneg : (0 : Rat) ≤ num / den := by positivity
  have hvalue := bitsValue_nearestBits num hden
  have hsize : |(if negative then -1 else 1) * nearestDouble (num / den : Rat)| =
      nearestDouble (num / den) := by
    rw [abs_mul, abs_of_nonneg (nearestDouble_nonneg hnonneg)]
    cases negative <;> simp
  rw [nearest, finite, hsize]
  rcases (nearestBits_le num den).lt_or_eq with hless | hinfinite
  · have hfinite := bitsValue_strictMono hless
    rw [bitsValue_infinityBits] at hfinite
    have hnearest : bitsValue (nearestBits num den) = nearestDouble (num / den) := by
      rcases min_choice (nearestDouble (num / den : Rat)) (2 ^ (1024 : Int)) with h | h
      · rw [hvalue, h]
      · rw [hvalue, h] at hfinite
        exact absurd hfinite (lt_irrefl _)
    rw [hnearest] at hfinite
    rw [toRat?_ofMagnitudeBits hless, ← bitsValue, hnearest]
    exact (if_pos hfinite).symm
  · rw [hinfinite, bitsValue_infinityBits] at hvalue
    rw [hinfinite, toRat?_infinityBits, if_neg (not_lt.mpr (hvalue ▸ min_le_left _ _))]

/-- The double nearest to a rational number, or that there is none. -/
theorem toRat?_ofRat_eq (r : Rat) : toRat? (ofRat r) = finite (nearestDouble r) := by
  have habs : (r.num.natAbs / r.den : Rat) = |r| := by
    rw [← natAbs_num_div_den (abs_nonneg r)]
    simp
  rw [ofRat, toRat?_nearest_eq _ _ r.den_pos, habs]
  rcases lt_or_ge r 0 with hneg | hnonneg
  · rw [if_pos (decide_eq_true (Rat.num_neg.mpr hneg)), abs_of_neg hneg, nearestDouble_neg,
      neg_one_mul, neg_neg]
  · rw [if_neg (by simpa using hnonneg), abs_of_nonneg hnonneg, one_mul]

theorem roundHalfEven_eq_zero (hden : 0 < den) :
    Decimal.roundHalfEven num den = 0 ↔ 2 * num ≤ den := by
  constructor
  · intro h
    rcases Decimal.roundHalfEven_cases num den with ⟨hdown, hrest⟩ | ⟨hup, -⟩
    · have hsplit := Nat.div_add_mod num den
      rw [← hdown, h, Nat.mul_zero, Nat.zero_add] at hsplit
      rwa [hsplit] at hrest
    · rw [h] at hup
      exact absurd hup.symm (Nat.succ_ne_zero _)
  · intro h
    have hwhole : num / den = 0 := Nat.div_eq_of_lt (by omega)
    rw [Decimal.roundHalfEven, hwhole, Nat.mod_eq_of_lt (by omega)]
    split
    · rfl
    · rw [if_neg (by omega)]
      rfl

/-- **A size vanishes from half of the least double on downwards.** -/
theorem nearestBits_eq_zero (hden : 0 < den) :
    nearestBits num den = 0 ↔ (num / den : Rat) ≤ 2 ^ (-1075 : Int) := by
  have hnonneg : (0 : Rat) ≤ num / den := by positivity
  have hvalue := bitsValue_nearestBits num hden
  have hzero : nearestBits num den = 0 ↔ nearestDouble (num / den) = 0 := by
    rw [← bitsValue_strictMono.injective.eq_iff, bitsValue_zero, hvalue]
    have hpos : (0 : Rat) < 2 ^ (1024 : Int) := by positivity
    constructor
    · intro h
      rcases min_choice (nearestDouble (num / den : Rat)) (2 ^ (1024 : Int)) with hleft | hright
      · rwa [← hleft]
      · rw [hright] at h
        exact absurd h hpos.ne'
    · intro h
      rw [h, min_eq_left hpos.le]
  rw [hzero]
  rcases lt_or_ge (num / den : Rat) (2 ^ (-1022 : Int)) with hless | hleast
  · obtain ⟨hunits, hquotient⟩ := nearestUnits_negSucc num den 1073
    rw [show Int.negSucc 1073 = -1074 from rfl] at hunits hquotient
    generalize num * Nat.pow 2 (1073 + 1) = units at hunits hquotient
    have hunit : (0 : Rat) < 2 ^ (-1074 : Int) := by positivity
    have hhalf : (2 : Rat) ^ (-1075 : Int) = 1 / 2 * 2 ^ (-1074 : Int) := by
      rw [show (-1075 : Int) = -1 + -1074 from rfl, zpow_add₀ (by norm_num), zpow_neg_one, one_div]
    rw [(nearestUnits_small hden hless).2, hunits, hquotient, hhalf, mul_le_mul_iff_left₀ hunit,
      mul_eq_zero, or_iff_left hunit.ne', Nat.cast_eq_zero, roundHalfEven_eq_zero hden,
      div_le_div_iff₀ (by exact_mod_cast hden) (by norm_num), one_mul, mul_comm]
    exact_mod_cast Iff.rfl
  · have hpos : (0 : Rat) < 2 ^ (-1022 : Int) := by positivity
    have hless : (2 : Rat) ^ (-1075 : Int) < 2 ^ (-1022 : Int) :=
      zpow_lt_zpow_right₀ (by norm_num) (by norm_num)
    rw [nearestDouble_of_le (by rwa [abs_of_nonneg hnonneg])]
    exact iff_of_false (toDouble_pos (hpos.trans_le hleast)).ne'
      (not_le.mpr (hless.trans_le hleast))

end Binary64
end Mensura
