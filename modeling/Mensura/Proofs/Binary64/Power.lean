import Mensura.Binary64.Power
import Mensura.Proofs.Binary64.Integer
import Mensura.Proofs.Binary64.Nearest

/-!
# Integer powers of doubles

A power is multiplied out by squaring, and cut off to some leading digits at each step; in the end
at most half of it is missing (`powerBelow_bounds`).  Then it is rounded, and the platform's power
function has a say in the last place (`roundedTo_roundTowards`).  So the result is the power within
a factor of eight, or infinite, or zero; and there are sizes for which each of them is certain
(`power_powInt`).
-/

set_option autoImplicit false

namespace Mensura
namespace Binary64

/-! ## Numbers up to a factor -/

/-- Two positive numbers that differ by a factor of `k` at most. -/
structure UpTo (k a b : Rat) : Prop where
  pos : 0 < a
  pos' : 0 < b
  le : a ≤ k * b
  le' : b ≤ k * a

namespace UpTo

variable {k l a b c d : Rat}

theorem refl (ha : 0 < a) : UpTo 1 a a :=
  ⟨ha, ha, (one_mul a).ge, (one_mul a).ge⟩

theorem factor_pos (h : UpTo k a b) : 0 < k :=
  pos_of_mul_pos_left (h.pos.trans_le h.le) h.pos'.le

theorem mul (h : UpTo k a b) (h' : UpTo l c d) : UpTo (k * l) (a * c) (b * d) where
  pos := mul_pos h.pos h'.pos
  pos' := mul_pos h.pos' h'.pos'
  le := by
    rw [mul_mul_mul_comm]
    exact mul_le_mul h.le h'.le h'.pos.le (h.pos.trans_le h.le).le
  le' := by
    rw [mul_mul_mul_comm]
    exact mul_le_mul h.le' h'.le' h'.pos'.le (h.pos'.trans_le h.le').le

theorem trans (h : UpTo k a b) (h' : UpTo l b c) : UpTo (k * l) a c where
  pos := h.pos
  pos' := h'.pos'
  le := by
    rw [mul_assoc]
    exact h.le.trans (mul_le_mul_of_nonneg_left h'.le h.factor_pos.le)
  le' := by
    rw [mul_comm k, mul_assoc]
    exact h'.le'.trans (mul_le_mul_of_nonneg_left h.le' h'.factor_pos.le)

theorem mul_right (h : UpTo k a b) (hc : 0 < c) : UpTo k (a * c) (b * c) := by
  simpa using h.mul (.refl hc)

theorem of_abs_sub_le (ha : a ≠ 0) (h : |b - a| ≤ |a| / 2) : UpTo 2 |b| |a| := by
  have hpos := abs_pos.mpr ha
  have hlow := abs_sub_abs_le_abs_sub a b
  have hhigh := abs_sub_abs_le_abs_sub b a
  rw [abs_sub_comm] at hlow
  constructor <;> linarith

end UpTo

/-! ## Multiplying out -/

section Truncation

variable {digits c c' m n : Nat} {e : Int} {v v' w w' a : Rat}

/-- A number of which at most `c` cuts to some digits have left `w`. -/
structure Cut (digits c : Nat) (v w : Rat) : Prop where
  nonneg : 0 ≤ w
  le : w ≤ v
  le_mul : v * (1 - 2 * 2⁻¹ ^ digits) ^ c ≤ w

theorem Cut.refl (hv : 0 ≤ v) : Cut digits 0 v v :=
  ⟨hv, le_rfl, by rw [pow_zero, mul_one]⟩

theorem one_sub_nonneg (hdigits : 0 < digits) : (0 : Rat) ≤ 1 - 2 * 2⁻¹ ^ digits := by
  have hhalf : (2⁻¹ : Rat) ^ digits ≤ 2⁻¹ ^ 1 :=
    pow_le_pow_of_le_one (by norm_num) (by norm_num) hdigits
  rw [pow_one] at hhalf
  linarith

theorem Cut.mul (hdigits : 0 < digits) (h : Cut digits c v w) (h' : Cut digits c' v' w') :
    Cut digits (c + c') (v * v') (w * w') where
  nonneg := mul_nonneg h.nonneg h'.nonneg
  le := mul_le_mul h.le h'.le h'.nonneg (h.nonneg.trans h.le)
  le_mul := by
    have hfactor := one_sub_nonneg hdigits
    rw [pow_add, mul_mul_mul_comm]
    exact mul_le_mul h.le_mul h'.le_mul
      (mul_nonneg (h'.nonneg.trans h'.le) (pow_nonneg hfactor c')) h.nonneg

theorem Cut.trans {u : Rat} (hdigits : 0 < digits) (h : Cut digits c v w) (h' : Cut digits c' w u) :
    Cut digits (c + c') v u where
  nonneg := h'.nonneg
  le := h'.le.trans h.le
  le_mul := by
    rw [pow_add, ← mul_assoc]
    exact (mul_le_mul_of_nonneg_right h.le_mul (pow_nonneg (one_sub_nonneg hdigits) c')).trans
      h'.le_mul

/-- The number that a mantissa and an exponent stand for. -/
def dyadic (p : Nat × Int) : Rat :=
  p.1 * 2 ^ p.2

/-- A cut leaves all but one part in `2 ^ (digits - 1)`. -/
theorem cut_truncated (hdigits : 0 < digits) (m : Nat) (e : Int) :
    Cut digits 1 (dyadic (m, e)) (dyadic (truncated digits m e)) := by
  obtain ⟨excess, hexcess⟩ : ∃ k, k = m.log2 + 1 - digits := ⟨_, rfl⟩
  have hvalue : dyadic (truncated digits m e) = (m / 2 ^ excess : Nat) * 2 ^ excess * 2 ^ e := by
    rw [truncated, dyadic, ← hexcess, add_comm e, zpow_add₀ (by norm_num), zpow_natCast, mul_assoc]
    rfl
  have htwo : (0 : Rat) < 2 ^ e := by positivity
  rw [hvalue, dyadic]
  refine ⟨by positivity, mul_le_mul_of_nonneg_right ?_ htwo.le, ?_⟩
  · exact_mod_cast Nat.div_mul_le_self m (2 ^ excess)
  · rw [pow_one, mul_right_comm]
    refine mul_le_mul_of_nonneg_right ?_ htwo.le
    have hlost : (2 : Rat) ^ excess ≤ m * (2 * 2⁻¹ ^ digits) ∨ excess = 0 := by
      rcases Nat.eq_zero_or_pos excess with hzero | hpos
      · exact .inr hzero
      · left
        have hm : m ≠ 0 := by
          rintro rfl
          rw [Nat.log2_zero] at hexcess
          omega
        have hlarge : (2 : Rat) ^ (excess + digits) ≤ m * 2 := by
          rw [show excess + digits = m.log2 + 1 by omega, pow_succ]
          exact mul_le_mul_of_nonneg_right (by exact_mod_cast Nat.log2_self_le hm) (by norm_num)
        rw [inv_pow, ← mul_assoc, ← div_eq_mul_inv, le_div_iff₀ (by positivity), ← pow_add]
        exact hlarge
    rcases hlost with hlost | rfl
    · have hsplit : (m : Rat) = (m / 2 ^ excess : Nat) * 2 ^ excess + (m % 2 ^ excess : Nat) := by
        exact_mod_cast (Nat.div_add_mod' m (2 ^ excess)).symm
      have hrest : ((m % 2 ^ excess : Nat) : Rat) < 2 ^ excess := by
        exact_mod_cast Nat.mod_lt m (by positivity)
      linarith
    · rw [pow_zero, pow_zero, Nat.div_one, mul_one]
      exact mul_le_of_le_one_right (by positivity) (sub_le_self 1 (by positivity))

theorem dyadic_mul (p q : Nat × Int) : dyadic (p.1 * q.1, p.2 + q.2) = dyadic p * dyadic q := by
  rw [dyadic, dyadic, dyadic, Nat.cast_mul, zpow_add₀ (by norm_num), mul_mul_mul_comm]

/-- The steps of a squaring cut less than three times for each factor. -/
theorem exists_cut_powerBelow (hdigits : 0 < digits) (m : Nat) (e : Int) (n : Nat) :
    ∃ c ≤ 3 * n - 1, Cut digits c (dyadic (m, e) ^ n) (dyadic (powerBelow digits m e n)) := by
  have hbase : (0 : Rat) ≤ dyadic (m, e) := by
    rw [dyadic]
    positivity
  induction n using Nat.strong_induction_on with
  | _ n ih =>
    rw [powerBelow]
    split
    · next hzero =>
      subst hzero
      refine ⟨0, Nat.zero_le _, ?_⟩
      rw [pow_zero, show dyadic (1, 0) = 1 by simp [dyadic]]
      exact .refl zero_le_one
    · next hpos =>
      obtain ⟨c, hc, hroot⟩ := ih (n / 2) (by omega)
      have hsquare := (hroot.mul hdigits hroot).trans hdigits
        (dyadic_mul _ _ ▸ cut_truncated hdigits _ _)
      rw [← pow_add] at hsquare
      split
      · next heven =>
        rw [show n / 2 + n / 2 = n by omega] at hsquare
        exact ⟨_, by omega, hsquare⟩
      · next hodd =>
        have hproduct := (hsquare.mul hdigits (.refl hbase)).trans hdigits
          (dyadic_mul _ (m, e) ▸ cut_truncated hdigits _ _)
        rw [← pow_succ, show n / 2 + n / 2 + 1 = n by omega] at hproduct
        exact ⟨_, by omega, hproduct⟩

/-- **At most half of a power is cut off.** -/
theorem powerBelow_bounds (m : Nat) (e : Int) (n : Nat) :
    dyadic (m, e) ^ n / 2 ≤ dyadic (powerBelow (keptDigits n) m e n) ∧
      dyadic (powerBelow (keptDigits n) m e n) ≤ dyadic (m, e) ^ n := by
  have hdigits : 0 < keptDigits n := by
    rw [keptDigits]
    omega
  obtain ⟨c, hc, -, hle, hmul⟩ := exists_cut_powerBelow hdigits m e n
  refine ⟨?_, hle⟩
  have hbase : (0 : Rat) ≤ dyadic (m, e) ^ n := by
    rw [dyadic]
    positivity
  have hkept : (12 * n : Rat) ≤ 2 ^ keptDigits n := by
    have hless : n < 2 ^ (n.log2 + 1) := Nat.lt_log2_self
    have hpower : 12 * n ≤ 2 ^ (128 + n.log2) := by
      rw [pow_add]
      rw [pow_succ] at hless
      generalize 2 ^ n.log2 = p at hless ⊢
      norm_num
      omega
    exact_mod_cast hpower
  have hcuts : (c : Rat) ≤ 3 * n := by
    exact_mod_cast hc.trans (Nat.sub_le _ _)
  have hbernoulli := one_add_mul_le_pow
    (by linarith [one_sub_nonneg hdigits] : (-2 : Rat) ≤ -(2 * 2⁻¹ ^ keptDigits n)) c
  rw [← sub_eq_add_neg] at hbernoulli
  have hhalf : (1 / 2 : Rat) ≤ (1 - 2 * 2⁻¹ ^ keptDigits n) ^ c := by
    refine le_trans ?_ hbernoulli
    have hpos : (0 : Rat) < 2 ^ keptDigits n := by positivity
    have hshare : c * (2 * 2⁻¹ ^ keptDigits n) ≤ (1 / 2 : Rat) := by
      rw [inv_pow, ← mul_assoc, ← div_eq_mul_inv, div_le_iff₀ hpos]
      linarith
    linarith
  calc dyadic (m, e) ^ n / 2 = dyadic (m, e) ^ n * (1 / 2) := by ring
    _ ≤ _ := mul_le_mul_of_nonneg_left hhalf hbase
    _ ≤ _ := hmul

end Truncation

/-! ## Rounding -/

/-- What a positive number is rounded to if the last place may go to either side. -/
inductive RoundedTo (r : Rat) (y : Float) : Prop
  | infinite (hy : y.isInf = true) (hr : 2 ^ (1022 : Int) ≤ r)
  | zero (hy : toRat? y = some 0) (hr : r ≤ 2 ^ (-1075 : Int))
  | value {v : Rat} (hy : toRat? y = some v) (hr : 2 ^ (-1075 : Int) < r) (hnear : UpTo 4 v r)

section Rounding

variable {num den bits : Nat} {r : Rat}

theorem isInf_infinityBits : (ofMagnitudeBits false infinityBits).isInf = true := by
  decide +kernel

/-- The comparison with the double of some bits. -/
theorem scaledRatio_mul_lt (num : Nat) (hden : 0 < den) (bits : Nat) :
    ((scaledRatio (significand bits) (binaryExponent bits)).1 * den <
        num * (scaledRatio (significand bits) (binaryExponent bits)).2 ↔
      bitsValue bits < num / den) ∧
    (num * (scaledRatio (significand bits) (binaryExponent bits)).2 <
        (scaledRatio (significand bits) (binaryExponent bits)).1 * den ↔
      (num / den : Rat) < bitsValue bits) := by
  have hd : (0 : Rat) < den := by exact_mod_cast hden
  have hpos := scaledRatio_den_pos (significand bits) (binaryExponent bits)
  have hvalue := scaledRatio_quotient (significand bits) (binaryExponent bits)
  rw [← bitsValue] at hvalue
  generalize scaledRatio (significand bits) (binaryExponent bits) = q at hpos hvalue ⊢
  have hq : (0 : Rat) < q.2 := by exact_mod_cast hpos
  rw [← hvalue, div_lt_div_iff₀ hq hd, div_lt_div_iff₀ hd hq]
  constructor <;> exact_mod_cast Iff.rfl

/-- The other neighbour is at most twice as large, and at least half as large. -/
structure Beside (num den bits other : Nat) : Prop where
  ne_zero : other ≠ 0
  le_infinity : other ≤ infinityBits
  le : bitsValue other ≤ 2 * bitsValue bits
  ge : bitsValue bits ≤ 2 * bitsValue other
  finite : bits = infinityBits → other ≠ infinityBits → (num / den : Rat) < 2 ^ (1024 : Int)

theorem Beside.refl (hbits : bits ≠ 0) (hle : bits ≤ infinityBits) : Beside num den bits bits := by
  have hpos := bitsValue_pos hbits
  exact ⟨hbits, hle, by linarith, by linarith, fun h hne ↦ absurd h hne⟩

theorem beside_otherNeighbour (hden : 0 < den) (hbits : bits ≠ 0) (hle : bits ≤ infinityBits) :
    Beside num den bits (otherNeighbour num den bits) := by
  have hpos := bitsValue_pos hbits
  obtain ⟨hup, hdown⟩ := scaledRatio_mul_lt num hden bits
  rw [otherNeighbour]
  dsimp only
  rw [if_neg hbits, if_congr hup rfl rfl, if_congr hdown rfl rfl]
  split
  · next hless =>
    have hnext := bitsValue_succ_le hbits
    have hmin : bitsValue (min (bits + 1) infinityBits) ≤ bitsValue (bits + 1) :=
      bitsValue_strictMono.monotone (min_le_left _ _)
    have hmin' : bitsValue bits ≤ bitsValue (min (bits + 1) infinityBits) :=
      bitsValue_strictMono.monotone (le_min (Nat.le_succ bits) hle)
    refine ⟨?_, min_le_right _ _, by linarith, by linarith, fun h hne ↦ absurd ?_ hne⟩
    · have hinfinity : infinityBits ≠ 0 := by decide
      omega
    · omega
  split
  · next hgreater =>
    rcases eq_or_ne bits 1 with rfl | hone
    · exact .refl hbits hle
    · obtain ⟨below, rfl⟩ : ∃ below, bits = below + 1 := ⟨bits - 1, by omega⟩
      have hbelow : below ≠ 0 := by omega
      have hnext := bitsValue_succ_le hbelow
      have hless : bitsValue below < bitsValue (below + 1) :=
        bitsValue_strictMono (Nat.lt_succ_self below)
      rw [Nat.add_sub_cancel, max_eq_left (by omega)]
      refine ⟨hbelow, by omega, by linarith, hnext, fun h _ ↦ ?_⟩
      rwa [h, bitsValue_infinityBits] at hgreater
  · exact .refl hbits hle

/-- A nearest double other than zero is not far from the number. -/
theorem le_two_mul_nearestDouble (hr : 0 ≤ r) (h : 2 ^ (-1074 : Int) ≤ nearestDouble r) :
    r ≤ 2 * nearestDouble r := by
  rcases lt_or_ge r (2 ^ (-1074 : Int)) with hless | hleast
  · have hpos : (0 : Rat) < 2 ^ (-1074 : Int) := by positivity
    linarith
  · have hhalf := abs_le_nearestDouble (hleast.trans (le_abs_self r))
    rwa [abs_of_nonneg hr, abs_of_nonneg (nearestDouble_nonneg hr)] at hhalf

/-- The double of bits next to a number. -/
theorem roundedTo_of_beside {other : Nat} (hden : 0 < den)
    (hbits : nearestBits num den ≠ 0) (h : Beside num den (nearestBits num den) other) :
    RoundedTo (num / den) (ofMagnitudeBits false other) := by
  have hnonneg : (0 : Rat) ≤ num / den := by positivity
  have hvalue := bitsValue_nearestBits num hden
  have hleast : 2 ^ (-1074 : Int) ≤ nearestDouble (num / den) :=
    (two_pow_le_bitsValue hbits).trans (hvalue.trans_le (min_le_left _ _))
  have hlarge : bitsValue (nearestBits num den) ≤ 2 * (num / den) := by
    have hdouble := abs_nearestDouble_le (num / den : Rat)
    rw [abs_of_nonneg hnonneg, abs_of_nonneg (nearestDouble_nonneg hnonneg)] at hdouble
    exact (hvalue.trans_le (min_le_left _ _)).trans hdouble
  have hpositive : (2 : Rat) ^ (-1075 : Int) < num / den :=
    not_le.mp fun hsmall ↦ hbits ((nearestBits_eq_zero hden).mpr hsmall)
  have hle := h.le
  rcases h.le_infinity.lt_or_eq with hfinite | rfl
  · refine .value (toRat?_ofBits hfinite) hpositive
      ⟨bitsValue_pos h.ne_zero, hpositive.trans' (by positivity), by linarith, ?_⟩
    have hge := h.ge
    rcases eq_or_ne (nearestBits num den) infinityBits with hinfinity | hnormal
    · have hless := h.finite hinfinity hfinite.ne
      rw [hinfinity, bitsValue_infinityBits] at hge
      have hpos := bitsValue_pos h.ne_zero
      generalize (2 : Rat) ^ (1024 : Int) = bound at hge hless
      linarith
    · have hless : bitsValue (nearestBits num den) < 2 ^ (1024 : Int) := by
        rw [← bitsValue_infinityBits]
        exact bitsValue_strictMono (lt_of_le_of_ne (nearestBits_le num den) hnormal)
      have hnearest : bitsValue (nearestBits num den) = nearestDouble (num / den) := by
        rw [hvalue] at hless ⊢
        exact min_eq_left ((min_lt_iff.mp hless).resolve_right (lt_irrefl _)).le
      have hhalf := le_two_mul_nearestDouble hnonneg hleast
      linarith
  · refine .infinite isInf_infinityBits ?_
    have hsplit : (2 : Rat) ^ (1024 : Int) = 2 ^ (1022 : Int) * 4 := by
      rw [show (1024 : Int) = 1022 + 2 from rfl, zpow_add₀ (by norm_num)]
      norm_num
    rw [bitsValue_infinityBits, hsplit] at hle
    linarith

/-- **The guess decides about the last place alone.** -/
theorem roundedTo_roundTowards (guess : Float) (hden : 0 < den) :
    RoundedTo (num / den) (roundTowards guess num den) := by
  rw [roundTowards]
  rcases eq_or_ne (nearestBits num den) 0 with hzero | hbits
  · have hother : otherNeighbour num den 0 = 0 := by
      rw [otherNeighbour]
      exact if_pos rfl
    rw [hzero, hother, ite_self]
    refine .zero ?_ ((nearestBits_eq_zero hden).mp hzero)
    rw [toRat?_ofBits (by decide), bitsValue_zero]
  · refine roundedTo_of_beside hden hbits ?_
    split
    · exact beside_otherNeighbour hden hbits (nearestBits_le num den)
    · exact .refl hbits (nearestBits_le num den)

theorem dyadic_bounds {m : Nat} (hm : 0 < m) (e : Int) :
    2 ^ (m.log2 + e : Int) ≤ dyadic (m, e) ∧ dyadic (m, e) < 2 ^ (m.log2 + e + 1 : Int) := by
  have htwo : (0 : Rat) < 2 ^ e := by positivity
  rw [dyadic, add_right_comm, zpow_add₀ (by norm_num), zpow_add₀ (by norm_num), ← Nat.cast_succ,
    zpow_natCast, zpow_natCast]
  constructor
  · exact mul_le_mul_of_nonneg_right (by exact_mod_cast Nat.log2_self_le hm.ne') htwo.le
  · exact mul_lt_mul_of_pos_right (by exact_mod_cast Nat.lt_log2_self) htwo

theorem roundedTo_infinity {order : Int} (horder : farExponent < order) (hr : 2 ^ order ≤ 2 * r) :
    RoundedTo r (ofMagnitudeBits false infinityBits) := by
  refine .infinite isInf_infinityBits ?_
  rw [farExponent] at horder
  have hless : (2 : Rat) ^ (1022 + 1 : Int) ≤ 2 ^ order :=
    zpow_le_zpow_right₀ (by norm_num) (by omega)
  rw [zpow_add_one₀ (by norm_num)] at hless
  generalize (2 : Rat) ^ (1022 : Int) = bound at hless ⊢
  linarith

theorem roundedTo_zero {order : Int} (horder : farExponent < order) (hr : r ≤ 2 * 2 ^ (-order)) :
    RoundedTo r 0 := by
  refine .zero toRat?_zero (hr.trans ?_)
  rw [farExponent] at horder
  rw [mul_comm, ← zpow_add_one₀ (by norm_num)]
  exact zpow_le_zpow_right₀ (by norm_num) (by omega)

/-- The number that a power is rounded from. -/
def oriented (inverse : Bool) (r : Rat) : Rat :=
  if inverse then r⁻¹ else r

theorem oriented_bounds {s : Rat} (inverse : Bool) (hr : 0 < r) (hlow : r / 2 ≤ s) (hhigh : s ≤ r) :
    oriented inverse r ≤ 2 * oriented inverse s ∧ oriented inverse s ≤ 2 * oriented inverse r := by
  have hs : 0 < s := (half_pos hr).trans_le hlow
  cases inverse with
  | false =>
    change r ≤ 2 * s ∧ s ≤ 2 * r
    constructor <;> linarith
  | true =>
    change r⁻¹ ≤ 2 * s⁻¹ ∧ s⁻¹ ≤ 2 * r⁻¹
    rw [← div_eq_mul_inv, ← div_eq_mul_inv, le_div_iff₀ hs, le_div_iff₀ hr, inv_mul_le_iff₀ hr,
      inv_mul_le_iff₀ hs]
    constructor <;> linarith

theorem oriented_pow (a : Rat) (n : Int) : oriented (decide (n < 0)) (a ^ n.natAbs) = a ^ n := by
  rcases lt_or_ge n 0 with hneg | hnonneg
  · rw [decide_eq_true hneg, oriented, if_pos rfl, ← zpow_natCast, ← zpow_neg]
    congr 1
    omega
  · rw [decide_eq_false hnonneg.not_gt, oriented, if_neg Bool.false_ne_true, ← zpow_natCast]
    congr 1
    omega

theorem roundedTo_roundPower (guess : Float) (inverse : Bool) {m : Nat} (hm : 0 < m) (e : Int) :
    RoundedTo (oriented inverse (dyadic (m, e))) (roundPower guess inverse m e) := by
  obtain ⟨hlow, hhigh⟩ := dyadic_bounds hm e
  have hpos : 0 < dyadic (m, e) := hlow.trans_lt' (by positivity)
  have hquotient : ((scaledRatio m e).1 / (scaledRatio m e).2 : Rat) = dyadic (m, e) :=
    scaledRatio_quotient m e
  have hden := scaledRatio_den_pos m e
  have hnum : 0 < (scaledRatio m e).1 := by
    rw [← hquotient] at hpos
    refine Nat.pos_of_ne_zero fun hzero ↦ ?_
    rw [hzero, Nat.cast_zero, zero_div] at hpos
    exact lt_irrefl _ hpos
  have hinverse : (2 : Rat) ^ (-(m.log2 + e) : Int) ≤ 2 * (dyadic (m, e))⁻¹ ∧
      (dyadic (m, e))⁻¹ ≤ 2 ^ (-(m.log2 + e) : Int) := by
    have htwo : (0 : Rat) < 2 ^ (m.log2 + e : Int) := by positivity
    rw [zpow_add_one₀ (by norm_num)] at hhigh
    rw [zpow_neg]
    generalize (2 : Rat) ^ (m.log2 + e : Int) = p at hlow hhigh htwo ⊢
    refine ⟨?_, inv_anti₀ htwo hlow⟩
    rw [← div_eq_mul_inv, le_div_iff₀ hpos, inv_mul_le_iff₀ htwo]
    linarith
  rw [roundPower]
  dsimp only
  generalize (m.log2 + e : Int) = order at *
  cases inverse with
  | false =>
    simp only [oriented, Bool.false_eq_true, if_false]
    split
    · next hfar => exact roundedTo_infinity hfar (by linarith)
    split
    · next hfar =>
      refine roundedTo_zero hfar ?_
      rw [neg_neg, mul_comm, ← zpow_add_one₀ (by norm_num)]
      exact hhigh.le
    · rw [← hquotient]
      exact roundedTo_roundTowards guess hden
  | true =>
    simp only [oriented, if_true]
    split
    · next hfar => exact roundedTo_infinity hfar hinverse.1
    split
    · next hfar =>
      have htwo : (0 : Rat) < 2 ^ (-order) := by positivity
      exact roundedTo_zero hfar (by linarith [hinverse.2])
    · rw [← hquotient, inv_div]
      exact roundedTo_roundTowards guess hnum

end Rounding

/-! ## Integer powers -/

/-- What becomes of a power of size `r`. -/
inductive Power (r : Rat) : Option Float → Prop
  | overflow (hr : 2 ^ (1021 : Int) ≤ r) : Power r none
  | underflow {y : Float} (hy : toRat? y = some 0) (hr : r ≤ 2 ^ (-1074 : Int)) : Power r (some y)
  | value {y : Float} {v : Rat} (hy : toRat? y = some v) (hr : 2 ^ (-1076 : Int) < r)
    (hnear : UpTo 8 |v| r) : Power r (some y)

section Powers

variable {x y : Float} {a r s : Rat} {n : Int}

/-- What is rounded may have lost half or gained as much again. -/
theorem RoundedTo.power (h : RoundedTo s y) (hlow : r ≤ 2 * s) (hhigh : s ≤ 2 * r) :
    Power r (if y.isInf then none else some y) := by
  have hhalf {e : Int} : (2 : Rat) ^ (e + 1) = 2 ^ e * 2 := zpow_add_one₀ (by norm_num) e
  cases h with
  | infinite hy hs =>
    rw [if_pos hy]
    rw [show (1022 : Int) = 1021 + 1 from rfl, hhalf] at hs
    exact .overflow (by linarith)
  | zero hy hs =>
    rw [if_neg (by simp [(ordinary_of_toRat? hy).1])]
    refine .underflow hy ?_
    rw [show (-1074 : Int) = -1075 + 1 from rfl, hhalf]
    linarith
  | value hy hs hnear =>
    rw [if_neg (by simp [(ordinary_of_toRat? hy).1])]
    obtain ⟨hv, hs0, hle, hle'⟩ := hnear
    rw [show (-1075 : Int) = -1076 + 1 from rfl, hhalf] at hs
    refine .value hy (by linarith) ?_
    rw [abs_of_pos hv]
    exact ⟨hv, by linarith, by linarith, by linarith⟩

/-- An exponent that is a double is read as itself. -/
theorem toRat?_ofInt_of_held (hn : toRat? y = some (n : Rat)) :
    toRat? (ofInt n) = some (n : Rat) := by
  obtain ⟨hnearest, hless⟩ := finite_eq_some.mp (finite_nearestDouble (toRat?_abs hn))
  rw [hnearest, abs_abs] at hless
  have hvalue := bitsValue_nearestBits n.natAbs Nat.one_pos
  rw [Nat.cast_one, div_one, natAbs_cast_eq_abs, hnearest, min_eq_left hless.le] at hvalue
  have hbits : nearestBits n.natAbs 1 < infinityBits := by
    rwa [← bitsValue_strictMono.lt_iff_lt, hvalue, bitsValue_infinityBits]
  rw [ofInt, nearest, toRat?_ofMagnitudeBits hbits, ← bitsValue, hvalue]
  rcases lt_or_ge n 0 with hneg | hnonneg
  · rw [decide_eq_true hneg, if_pos rfl, abs_of_neg (by exact_mod_cast hneg), neg_one_mul, neg_neg]
  · rw [decide_eq_false hnonneg.not_gt, if_neg Bool.false_ne_true,
      abs_of_nonneg (by exact_mod_cast hnonneg), one_mul]

theorem readExponent_of_held (hn : toRat? y = some (n : Rat)) : readExponent n = n := by
  rw [readExponent, toInt?, toRat?_ofInt_of_held hn]
  rfl

/-- One is a power of size one. -/
theorem power_one : Power 1 (some 1) := by
  refine .value toRat?_one (zpow_lt_one_of_neg₀ (by norm_num) (by norm_num)) ?_
  rw [abs_one]
  exact ⟨one_pos, one_pos, by norm_num, by norm_num⟩

/-- **A positive power is found up to a factor of eight**, unless it leaves the range. -/
theorem power_powPositive (hx : toRat? x = some a) (ha : 0 < a) (hn : toRat? y = some (n : Rat)) :
    Power (a ^ n) (powPositive x n) := by
  rw [powPositive]
  split
  · next hone =>
    obtain rfl : a = 1 := (beq_iff hx toRat?_one).mp hone
    rw [one_zpow]
    exact power_one
  · simp only [readExponent_of_held hn]
    have hbase : dyadic (significand (magnitudeBits x), binaryExponent (magnitudeBits x)) = a := by
      rw [dyadic, ← abs_eq_of_toRat? hx, abs_of_pos ha]
    obtain ⟨hlow, hhigh⟩ := powerBelow_bounds (significand (magnitudeBits x))
      (binaryExponent (magnitudeBits x)) n.natAbs
    rw [hbase] at hlow hhigh
    generalize powerBelow _ _ _ _ = p at hlow hhigh
    have hpower : 0 < a ^ n.natAbs := pow_pos ha _
    have hpos : 0 < dyadic p := by linarith
    have hm : 0 < p.1 := by
      refine Nat.pos_of_ne_zero fun hzero ↦ ?_
      rw [dyadic, hzero, Nat.cast_zero, zero_mul] at hpos
      exact lt_irrefl _ hpos
    obtain ⟨hle, hle'⟩ := oriented_bounds (decide (n < 0)) hpower hlow hhigh
    rw [oriented_pow] at hle hle'
    exact (roundedTo_roundPower _ (decide (n < 0)) hm p.2).power hle hle'

/-- The sign of a power does not matter to its size. -/
theorem Power.copySign {o : Option Float} (h : Power r o) (odd : Bool) (x : Float) :
    Power r (o.map fun z ↦ if odd then Binary64.copySign z x else z) := by
  cases odd with
  | false => simpa using h
  | true =>
    have hsign : |(if isNegative x then -1 else 1 : Rat)| = 1 := by split <;> norm_num
    cases h with
    | overflow hr => exact .overflow hr
    | underflow hz hr =>
      refine .underflow ?_ hr
      change toRat? (Binary64.copySign _ x) = some 0
      rw [toRat?_copySign hz, abs_zero, mul_zero]
    | value hz hr hnear =>
      refine .value (toRat?_copySign hz x) hr ?_
      rwa [abs_mul, hsign, one_mul, abs_abs]

/-- **An integer power of a double is found up to a factor of eight**, unless it is too large or too
small for a double. -/
theorem power_powInt (hx : toRat? x = some a) (ha : a ≠ 0) (hn : toRat? y = some (n : Rat)) :
    Power (|a| ^ n) (powInt x n) := by
  obtain ⟨hinf, hnan⟩ := ordinary_of_toRat? hx
  have hexponent := (ordinary_of_toRat? (toRat?_ofInt_of_held hn)).1
  have hzero := beq_zero_eq_false hx ha
  have hpower := (power_powPositive (toRat?_abs hx) (abs_pos.mpr ha) hn).copySign
    (isOddExponent n) x
  rw [powInt]
  simp only [hinf, hnan, hexponent, hzero, Bool.false_eq_true, if_false]
  split
  · next hn0 =>
    subst hn0
    rw [zpow_zero]
    exact power_one
  · exact hpower

end Powers

end Binary64
end Mensura
