import Mathlib.Algebra.Order.Field.Power
import Mathlib.Algebra.Order.Field.Rat
import Mathlib.Tactic.Linarith
import Mathlib.Tactic.Positivity
import Mathlib.Tactic.Ring
import Mensura.Binary64.Basic

/-!
# Doubles, taken apart

The arithmetic of doubles takes its operands apart into a sign, a mantissa and an exponent and
packs the result again.  The exact value of a double is that of its parts, and packing keeps it:

* `toRat?_eq`: the value read off the bits is the value of the parts.
* `unpack_pack`: parts that fit into the bits come back from them.
-/

set_option autoImplicit false

open Float.Model Float.Model.UnpackedFloat

namespace Mensura
namespace Binary64

/-- The number that sign, mantissa and exponent stand for; none for the special values. -/
def unpackedValue : UnpackedFloat → Option Rat
  | .finite s m e _ => some (s.apply m * 2 ^ e)
  | .zero _ => some 0
  | _ => none

theorem unpackedValue_finite (s : Sign) {m : Nat} {e : Int} (hm : 0 < m) :
    unpackedValue (.finite s m e hm) = some ((s.apply m : Int) * 2 ^ e : Rat) := rfl

theorem unpackedValue_zero (s : Sign) : unpackedValue (.zero s) = some 0 := rfl

/-- Mantissa and exponent as the bits of a double hold them: fifty-three digits, fewer only for
the least exponent. -/
structure Canonical (m : Nat) (e : Int) : Prop where
  lt : m < 2 ^ 53
  least_le : -1074 ≤ e
  le_greatest : e ≤ 971
  full : 2 ^ 52 ≤ m ∨ e = -1074

/-- An unpacked number that fits into the bits. -/
def Fits : UnpackedFloat → Prop
  | .finite _ m e _ => Canonical m e
  | _ => True

/-! ## The fields of the bits -/

theorem toNat_unpackMantissa (b : BitVec 64) :
    (@unpackMantissa .binary64 b).toNat = b.toNat % 2 ^ 52 := by
  simp [unpackMantissa]

theorem toNat_unpackExponent (b : BitVec 64) :
    (@unpackExponent .binary64 b).toNat = b.toNat / 2 ^ 52 % 2 ^ 11 := by
  simp [unpackExponent, Nat.shiftRight_eq_div_pow]

theorem toNat_unpackSign (b : BitVec 64) :
    (@unpackSign .binary64 b).toNat = b.toNat / 2 ^ 63 := by
  have hfield : (@unpackSign .binary64 b).toNat = (b.extractLsb 63 63).toNat := rfl
  have := b.isLt
  rw [hfield, BitVec.extractLsb_toNat, Nat.shiftRight_eq_div_pow]
  omega

theorem unpackSign_packComponents (s : Sign) (e : BitVec 11) (m : BitVec 52) :
    unpackSign (packComponents .binary64 s e m) = s.toBitVec := by
  have hsplit : packComponents .binary64 s e m =
      (s.toBitVec ++ e ++ m : BitVec (1 + 11 + 52)) := rfl
  rw [← BitVec.toNat_inj, toNat_unpackSign, hsplit, BitVec.toNat_append, BitVec.toNat_append,
    ← Nat.shiftLeft_add_eq_or_of_lt m.isLt, ← Nat.shiftLeft_add_eq_or_of_lt e.isLt]
  simp only [Nat.shiftLeft_eq]
  have := m.isLt
  have := e.isLt
  omega

theorem sign_ofBitVec_toBitVec (s : Sign) : Sign.ofBitVec s.toBitVec = s := by
  cases s <;> rfl

theorem exponentVec_eq_zero_iff (b : BitVec 64) :
    @unpackExponent .binary64 b = 0#11 ↔
      (@unpackExponent .binary64 b).toNat = 0 :=
  BitVec.toNat_inj.symm

theorem exponentVec_eq_last_iff (b : BitVec 64) :
    @unpackExponent .binary64 b = -1#11 ↔
      (@unpackExponent .binary64 b).toNat = 2047 :=
  BitVec.toNat_inj.symm

theorem mantissaVec_eq_zero_iff (b : BitVec 64) :
    @unpackMantissa .binary64 b = 0#52 ↔
      (@unpackMantissa .binary64 b).toNat = 0 :=
  BitVec.toNat_inj.symm

theorem toNat_withLeadingBit (m : BitVec 52) : (1#1 ++ m).toNat = m.toNat + 2 ^ 52 := by
  rw [BitVec.toNat_append, BitVec.toNat_ofNat, ← Nat.shiftLeft_add_eq_or_of_lt m.isLt]
  simp [Nat.shiftLeft_eq, Nat.add_comm]

theorem significand_pos {bits : Nat} (h : bits ≠ 0) : 0 < significand bits := by
  rw [significand, leadingBit]
  split <;> omega

/-- The bits below the sign, of sixty-four. -/
def magnitudeOf (b : BitVec 64) : Nat :=
  b.toNat % signBit

/-- The sign bit, of sixty-four. -/
def signOf (b : BitVec 64) : Sign :=
  Sign.ofBitVec (@unpackSign .binary64 b)

theorem magnitudeOf_eq (b : BitVec 64) :
    magnitudeOf b = (@unpackExponent .binary64 b).toNat * 4503599627370496 +
      (@unpackMantissa .binary64 b).toNat := by
  rw [toNat_unpackMantissa, toNat_unpackExponent, magnitudeOf, signBit]
  omega

theorem significand_of_normal {e m : Nat} (he : e ≠ 0) (hm : m < 4503599627370496) :
    significand (e * 4503599627370496 + m) = m + 4503599627370496 := by
  rw [significand, leadingBit, if_neg (by omega)]
  omega

theorem binaryExponent_of_normal {e m : Nat} (he : e ≠ 0) (hm : m < 4503599627370496) :
    binaryExponent (e * 4503599627370496 + m) = e - 1075 := by
  rw [binaryExponent, leadingBit, if_neg (by omega)]
  omega

theorem significand_of_subnormal {m : Nat} (hm : m < 4503599627370496) : significand m = m := by
  rw [significand, leadingBit, if_pos hm]
  omega

theorem binaryExponent_of_subnormal {m : Nat} (hm : m < 4503599627370496) :
    binaryExponent m = -1074 := by
  rw [binaryExponent, leadingBit, if_pos hm]

/-- Taking bits apart, on the number they spell. -/
theorem unpack_eq (b : BitVec 64) :
    UnpackedFloat.unpack .binary64 b =
      if infinityBits < magnitudeOf b then .notANumber
      else if magnitudeOf b = infinityBits then .infinity (signOf b)
      else if h : magnitudeOf b = 0 then .zero (signOf b)
      else .finite (signOf b) (significand (magnitudeOf b)) (binaryExponent (magnitudeOf b))
        (significand_pos h) := by
  have hbits := magnitudeOf_eq b
  have hexponent : (@unpackExponent .binary64 b).toNat < 2048 := BitVec.isLt _
  have hmantissa : (@unpackMantissa .binary64 b).toNat < 4503599627370496 := BitVec.isLt _
  have hinfinity : infinityBits = 2047 * 4503599627370496 := rfl
  delta UnpackedFloat.unpack
  dsimp only
  by_cases hlast : @unpackExponent .binary64 b = -1#11
  · rw [if_pos hlast]
    rw [exponentVec_eq_last_iff] at hlast
    by_cases hzero : @unpackMantissa .binary64 b = 0#52
    · rw [if_pos hzero]
      rw [mantissaVec_eq_zero_iff] at hzero
      rw [if_neg (by omega), if_pos (by omega)]
      rfl
    · rw [if_neg hzero]
      rw [mantissaVec_eq_zero_iff] at hzero
      rw [if_pos (by omega)]
  · rw [if_neg hlast]
    rw [exponentVec_eq_last_iff] at hlast
    by_cases hfirst : @unpackExponent .binary64 b = 0#11
    · rw [if_pos hfirst]
      rw [exponentVec_eq_zero_iff] at hfirst
      by_cases hzero : @unpackMantissa .binary64 b = 0#52
      · rw [dif_pos hzero]
        rw [mantissaVec_eq_zero_iff] at hzero
        rw [if_neg (by omega), if_neg (by omega), dif_pos (by omega)]
        rfl
      · rw [dif_neg hzero]
        rw [mantissaVec_eq_zero_iff] at hzero
        rw [if_neg (by omega), if_neg (by omega), dif_neg (by omega)]
        rw [UnpackedFloat.finite.injEq, hbits, hfirst, Nat.zero_mul, Nat.zero_add,
          significand_of_subnormal hmantissa, binaryExponent_of_subnormal hmantissa]
        exact ⟨rfl, rfl, rfl⟩
    · rw [if_neg hfirst]
      rw [exponentVec_eq_zero_iff] at hfirst
      rw [if_neg (by omega), if_neg (by omega), dif_neg (by omega)]
      rw [UnpackedFloat.finite.injEq, hbits, significand_of_normal hfirst hmantissa,
        binaryExponent_of_normal hfirst hmantissa, toNat_withLeadingBit]
      exact ⟨rfl, rfl, rfl⟩

theorem canonical_of_bits {bits : Nat} (h : bits < infinityBits) :
    Canonical (significand bits) (binaryExponent bits) := by
  rw [infinityBits] at h
  rw [significand, binaryExponent, leadingBit]
  split <;> constructor <;> omega

/-- What comes out of the bits fits into them. -/
theorem fits_unpack (b : BitVec 64) : Fits (UnpackedFloat.unpack .binary64 b) := by
  rw [unpack_eq]
  rcases lt_trichotomy infinityBits (magnitudeOf b) with hundefined | hinfinite | hnumber
  · rw [if_pos hundefined]
    trivial
  · rw [if_neg (by omega), if_pos hinfinite.symm]
    trivial
  · rw [if_neg (by omega), if_neg (by omega)]
    by_cases hzero : magnitudeOf b = 0
    · rw [dif_pos hzero]
      trivial
    · rw [dif_neg hzero]
      exact canonical_of_bits hnumber

theorem signOf_eq (b : BitVec 64) :
    signOf b = if signBit ≤ b.toNat then .negative else .positive := by
  have hsign := toNat_unpackSign b
  have hlt := b.isLt
  rw [signOf, Sign.ofBitVec, signBit]
  by_cases hb : @unpackSign .binary64 b = 0#1
  · have hzero : (@unpackSign .binary64 b).toNat = 0 := by rw [hb]; rfl
    rw [if_pos hb, if_neg (by omega)]
  · have hone : (@unpackSign .binary64 b).toNat ≠ 0 := fun h ↦
      hb (BitVec.toNat_inj.mp h)
    rw [if_neg hb, if_pos (by omega)]

theorem mkRat_scaledRatio (m : Nat) (e : Int) :
    mkRat (scaledRatio m e).1 (scaledRatio m e).2 = m * 2 ^ e := by
  rw [Rat.mkRat_eq_div]
  cases e with
  | ofNat k => simp [scaledRatio]
  | negSucc k => simp [scaledRatio, zpow_negSucc, div_eq_mul_inv]

/-- The value read off the bits is the value of the parts. -/
theorem toRat?_eq (x : Float) : toRat? x = unpackedValue x.toModel.unpack := by
  have hunpack : x.toModel.unpack = UnpackedFloat.unpack .binary64 x.toModel.toBits.toBitVec := rfl
  have hnan : x.isNaN = x.toModel.unpack.isNaN := rfl
  have hinf : x.isInf = x.toModel.unpack.isInf := rfl
  have hbits : magnitudeBits x = magnitudeOf x.toModel.toBits.toBitVec := rfl
  have hsign : isNegative x = decide (signBit ≤ x.toModel.toBits.toBitVec.toNat) := rfl
  rw [toRat?, reading, hnan, hinf, hbits, hsign, hunpack, unpack_eq, signOf_eq]
  generalize x.toModel.toBits.toBitVec = b
  by_cases hundefined : infinityBits < magnitudeOf b
  · rw [if_pos hundefined]
    rfl
  by_cases hinfinite : magnitudeOf b = infinityBits
  · rw [if_neg hundefined, if_pos hinfinite]
    rfl
  by_cases hzero : magnitudeOf b = 0
  · have hnumber (s) : (UnpackedFloat.zero s).isNaN = false ∧
        (UnpackedFloat.zero s).isInf = false := ⟨rfl, rfl⟩
    have hsignificand : significand 0 = 0 := rfl
    rw [if_neg hundefined, if_neg hinfinite, dif_pos hzero, hzero, (hnumber _).1, (hnumber _).2,
      unpackedValue_zero]
    simp only [Bool.false_eq_true, if_false, mkRat_scaledRatio, hsignificand]
    split <;> simp
  · have hnumber (s m e h) : (UnpackedFloat.finite s m e h).isNaN = false ∧
        (UnpackedFloat.finite s m e h).isInf = false := ⟨rfl, rfl⟩
    rw [if_neg hundefined, if_neg hinfinite, dif_neg hzero, (hnumber _ _ _ _).1,
      (hnumber _ _ _ _).2, unpackedValue_finite]
    simp only [Bool.false_eq_true, if_false, mkRat_scaledRatio, decide_eq_true_eq]
    split <;> simp [Sign.apply]

/-! ## Packing -/

theorem magnitudeOf_packComponents (s : Sign) (e : BitVec 11) (m : BitVec 52) :
    magnitudeOf (packComponents .binary64 s e m) = e.toNat * 4503599627370496 + m.toNat := by
  rw [magnitudeOf_eq, unpackExponent_packComponents, unpackMantissa_packComponents]

theorem signOf_packComponents (s : Sign) (e : BitVec 11) (m : BitVec 52) :
    signOf (packComponents .binary64 s e m) = s := by
  rw [signOf, unpackSign_packComponents, sign_ofBitVec_toBitVec]

/-- The bits of parts that fit into them: the leading bit of a full mantissa goes into the
exponent field. -/
theorem pack_finite {s : Sign} {m : Nat} {e : Int} (hm : 0 < m) (h : Canonical m e) :
    UnpackedFloat.pack .binary64 (.finite s m e hm) =
      if 2 ^ 52 ≤ m then
        packComponents .binary64 s (BitVec.ofNat 11 (e + 1075).toNat) (BitVec.ofNat 52 m)
      else packComponents .binary64 s 0#11 (BitVec.ofNat 52 m) := by
  obtain ⟨hlt, hleast, hgreatest, hfull⟩ := h
  have hbiased : (e + Format.binary64.exponentBias +
      Format.binary64.mantissaBitsWithoutImplicit).toNat = (e + 1075).toNat := by
    change (e + 1023 + 52).toNat = _
    omega
  have hrange : ¬2 ^ Format.binary64.exponentBits ≤ (e + 1075).toNat + 1 := by
    change ¬2048 ≤ (e + 1075).toNat + 1
    omega
  have hdigits : m.log2 + 1 = Format.binary64.mantissaBits ↔ 2 ^ 52 ≤ m := by
    change m.log2 + 1 = 53 ↔ _
    have hupper : m.log2 < 53 := (Nat.log2_lt (by omega)).mpr hlt
    rw [← Nat.le_log2 (by omega)]
    omega
  delta UnpackedFloat.pack
  dsimp only
  simp only [hbiased, if_neg hrange, hdigits]

/-- Parts that fit into the bits come back from them. -/
theorem unpack_pack {u : UnpackedFloat} (h : Fits u) :
    UnpackedFloat.unpack .binary64 (UnpackedFloat.pack .binary64 u) = u := by
  cases u with
  | notANumber => rfl
  | infinity s => cases s <;> rfl
  | zero s => cases s <;> rfl
  | finite s m e hm =>
    rw [pack_finite hm h]
    obtain ⟨hlt, hleast, hgreatest, hfull⟩ := h
    by_cases hnormal : 2 ^ 52 ≤ m
    · rw [if_pos hnormal, unpack_eq]
      have hmagnitude : magnitudeOf (packComponents .binary64 s
          (BitVec.ofNat 11 (e + 1075).toNat) (BitVec.ofNat 52 m)) =
          (e + 1075).toNat * 4503599627370496 + (m - 4503599627370496) := by
        rw [magnitudeOf_packComponents, BitVec.toNat_ofNat, BitVec.toNat_ofNat]
        omega
      have hinfinity : infinityBits = 2047 * 4503599627370496 := rfl
      have hrest : m - 4503599627370496 < 4503599627370496 := by omega
      rw [if_neg (by omega), if_neg (by omega), dif_neg (by omega), UnpackedFloat.finite.injEq,
        signOf_packComponents, hmagnitude,
        significand_of_normal (e := (e + 1075).toNat) (by omega) hrest,
        binaryExponent_of_normal (e := (e + 1075).toNat) (by omega) hrest]
      exact ⟨rfl, by omega, by omega⟩
    · rw [if_neg hnormal, unpack_eq]
      have hmagnitude : magnitudeOf (packComponents .binary64 s 0#11 (BitVec.ofNat 52 m)) = m := by
        rw [magnitudeOf_packComponents, BitVec.toNat_ofNat, BitVec.toNat_ofNat]
        omega
      have hinfinity : infinityBits = 2047 * 4503599627370496 := rfl
      rw [if_neg (by omega), if_neg (by omega), dif_neg (by omega), UnpackedFloat.finite.injEq,
        signOf_packComponents, hmagnitude, significand_of_subnormal (m := m) (by omega),
        binaryExponent_of_subnormal (m := m) (by omega)]
      exact ⟨rfl, rfl, by omega⟩

/-- The parts of a packed number are those it was packed from. -/
theorem unpack_toModel_ofModel_pack {u : UnpackedFloat} (h : Fits u) :
    (Float.ofModel (Float.Model.pack u)).toModel.unpack = u :=
  unpack_pack h

/-- The value of a packed number. -/
theorem toRat?_ofModel_pack {u : UnpackedFloat} (h : Fits u) :
    toRat? (Float.ofModel (Float.Model.pack u)) = unpackedValue u := by
  rw [toRat?_eq, unpack_toModel_ofModel_pack h]

/-- The value of the double with given bits. -/
theorem toRat?_ofMagnitudeBits {negative : Bool} {bits : Nat} (h : bits < infinityBits) :
    toRat? (ofMagnitudeBits negative bits) =
      some ((if negative then -1 else 1) *
        (significand bits * (2 : Rat) ^ binaryExponent bits)) := by
  have hlt : bits < signBit := h.trans (by decide)
  have hmagnitude : magnitudeOf (UInt64.ofNat
      (if negative then bits + signBit else bits)).toBitVec = bits := by
    change (if negative then bits + signBit else bits) % 2 ^ 64 % signBit = bits
    rw [signBit] at *
    split <;> omega
  have hsign : signOf (UInt64.ofNat (if negative then bits + signBit else bits)).toBitVec =
      if negative then .negative else .positive := by
    rw [signOf_eq]
    change (if signBit ≤ (if negative then bits + signBit else bits) % 2 ^ 64 then _ else _) = _
    rw [signBit] at *
    cases negative
    · rw [if_neg]
      · rfl
      · simp only [Bool.false_eq_true, if_false]; omega
    · rw [if_pos]
      · rfl
      · simp only [if_true]; omega
  have hbits : toRat? (ofMagnitudeBits negative bits) =
      unpackedValue (UnpackedFloat.unpack .binary64
        (UInt64.ofNat (if negative then bits + signBit else bits)).toBitVec) :=
    toRat?_ofModel_pack (fits_unpack _)
  rw [hbits, unpack_eq, if_neg (by omega), if_neg (by omega)]
  rcases Nat.eq_zero_or_pos bits with hzero | hpos
  · have hsignificand : significand 0 = 0 := rfl
    rw [dif_pos (by omega), unpackedValue_zero, hzero, hsignificand]
    simp
  · rw [dif_neg (by omega), unpackedValue_finite, hmagnitude, hsign]
    cases negative <;> simp [Sign.apply]

/-- A finite double is a canonical mantissa and exponent, or zero. -/
theorem exists_unpack_of_toRat? {x : Float} {r : Rat} (h : toRat? x = some r) :
    (∃ s, x.toModel.unpack = .zero s ∧ r = 0) ∨
      ∃ s m e hm, x.toModel.unpack = .finite s m e hm ∧ Canonical m e ∧ r = s.apply m * 2 ^ e := by
  have hfits : Fits x.toModel.unpack := fits_unpack _
  rw [toRat?_eq] at h
  cases hu : x.toModel.unpack with
  | notANumber => rw [hu] at h; cases h
  | infinity s => rw [hu] at h; cases h
  | zero s => rw [hu] at h; cases h; exact .inl ⟨s, rfl, rfl⟩
  | finite s m e hm =>
    rw [hu] at h hfits
    cases h
    exact .inr ⟨s, m, e, hm, rfl, hfits, rfl⟩

end Binary64
end Mensura
