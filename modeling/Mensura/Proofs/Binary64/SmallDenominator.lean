import Mensura.Datum
import Mensura.Proofs.Binary64.Fraction
import Mensura.Proofs.Binary64.Nearest
import Mensura.Proofs.Binary64.Shift

/-!
# Fractions that convert to a double

Many fractions convert to one double.  If one of them has a small denominator, then the closest
fraction to the double with such a denominator converts to it as well (`converts_of_closer`): the
numbers that are rounded to a double lie as far to its left as to its right, unless it is a power of
two, and no power of two but one that is itself such a fraction is near any of them.  At the ends of
this interval, where halves go to the even neighbour, lie fractions with larger denominators only.

So the numbers that stand for an exact exponent are the doubles that some fraction with a small
denominator converts to (`Datum.rationalized_real`).
-/

set_option autoImplicit false

open Float.Model Float.Model.UnpackedFloat

namespace Mensura
namespace Binary64

variable {x : Float} {r f c : Rat} {bound m : Nat} {e : Int}

/-- A fraction converts to a finite double if that is what its value is rounded to. -/
theorem ofRat_beq_iff (hx : toRat? x = some r) (f : Rat) :
    (ofRat f == x) = true ↔ nearestDouble f = r := by
  have hvalue := toRat?_ofRat_eq f
  cases hfinite : finite (nearestDouble f) with
  | some v =>
    rw [hfinite] at hvalue
    rw [beq_iff hvalue hx, (finite_eq_some.mp hfinite).1]
  | none =>
    rw [hfinite] at hvalue
    rw [beq_of_not_finite hvalue hx]
    refine iff_of_false Bool.false_ne_true ?_
    rintro rfl
    have hnearest := finite_nearestDouble hx
    rw [(finite_eq_some.mp hnearest).1, hfinite] at hnearest
    cases hnearest

/-! ## Denominators -/

/-- An odd number of parts has all the parts for its denominator. -/
theorem two_pow_le_den {j : Int} {k : Nat} (hodd : Odd j) (h : f * 2 ^ k = j) : 2 ^ k ≤ f.den := by
  have hcoprime : IsCoprime ((2 : Int) ^ k) j := by
    obtain ⟨i, rfl⟩ := hodd
    exact IsCoprime.pow_left ⟨-i, 1, by ring⟩
  have hcross : f.num * 2 ^ k = j * f.den := by
    have hden : (f.den : Rat) ≠ 0 := by exact_mod_cast f.den_pos.ne'
    have hnum : (f.num : Rat) = f * f.den := by
      rw [← div_eq_iff hden]
      exact f.num_div_den
    have hcast : (f.num * 2 ^ k : Rat) = j * f.den := by
      rw [hnum, ← h]
      ring
    exact_mod_cast hcast
  have hdvd : ((2 : Int) ^ k) ∣ f.den :=
    hcoprime.dvd_of_dvd_mul_left ⟨f.num, by rw [← hcross, mul_comm]⟩
  exact Nat.le_of_dvd f.den_pos (by exact_mod_cast hdvd)

/-- A fraction that is not zero is at least the inverse of the bound on its denominator. -/
theorem one_le_bound_mul (hf : 0 < f) (hden : f.den ≤ bound) : 1 ≤ bound * f := by
  have hnum : (1 : Rat) ≤ f.num := by exact_mod_cast Rat.num_pos.mpr hf
  calc (1 : Rat) ≤ f.num := hnum
    _ = f.den * f := by rw [mul_comm, Rat.mul_den_eq_num]
    _ ≤ bound * f := mul_le_mul_of_nonneg_right (by exact_mod_cast hden) hf.le

/-- What a fraction with a small denominator is rounded to is not much smaller than the inverse of
the bound. -/
theorem le_bound_mul_of_nearestDouble (hf : 0 < f) (hden : f.den ≤ bound)
    (hbound : bound ≤ 2 ^ 52) :
    (2 : Rat) ^ (-1022 : Int) ≤ f ∧ 1 - 2⁻¹ ^ 53 ≤ bound * toDouble f := by
  have hone := one_le_bound_mul hf hden
  have hboundr : (bound : Rat) ≤ 2 ^ 52 := by exact_mod_cast hbound
  constructor
  · have hmany : 1 ≤ 2 ^ (52 : Int) * f :=
      hone.trans (mul_le_mul_of_nonneg_right hboundr hf.le)
    calc (2 : Rat) ^ (-1022 : Int) ≤ 2 ^ (-52 : Int) :=
          zpow_le_zpow_right₀ (by norm_num) (by norm_num)
      _ ≤ 2 ^ (-52 : Int) * (2 ^ (52 : Int) * f) := le_mul_of_one_le_right (by positivity) hmany
      _ = f := by rw [← mul_assoc, ← zpow_add₀ (by norm_num), neg_add_cancel, zpow_zero, one_mul]
  · have herror := (abs_le.mp (abs_toDouble_sub_le_of_pos hf)).1
    calc (1 : Rat) - 2⁻¹ ^ 53 ≤ bound * f * (1 - 2⁻¹ ^ 53) :=
          le_mul_of_one_le_left (by norm_num) hone
      _ = bound * (f - 2⁻¹ ^ 53 * f) := by ring
      _ ≤ bound * toDouble f := mul_le_mul_of_nonneg_left (by linarith) (by positivity)

theorem den_mul_two_pow_le (m k : Nat) : ((m : Rat) * 2 ^ (-k : Int)).den ≤ 2 ^ k := by
  have hquotient : ((m : Rat) * 2 ^ (-k : Int)) = (m : Int) / (2 ^ k : Nat) := by
    rw [zpow_neg, zpow_natCast, Int.cast_natCast, Nat.cast_pow, Nat.cast_ofNat, div_eq_mul_inv]
  rw [hquotient]
  exact den_div_le m (Nat.two_pow_pos k)

/-! ## Closer fractions -/

/-- A double that is not far below the inverse of the bound has full digits. -/
theorem two_pow_52_le_of_large (hcanonical : Canonical m e) (hbound : bound ≤ 2 ^ 52)
    (hlarge : (1 : Rat) - 2⁻¹ ^ 53 ≤ bound * (m * 2 ^ e)) : 2 ^ 52 ≤ m := by
  by_contra hless
  have hleast := hcanonical.full.resolve_left hless
  have hsmall : (m : Rat) ≤ 2 ^ 52 := by exact_mod_cast (not_le.mp hless).le
  have hboundr : (bound : Rat) ≤ 2 ^ 52 := by exact_mod_cast hbound
  rw [hleast] at hlarge
  have hvanishing : (bound * (m * 2 ^ (-1074 : Int)) : Rat) ≤ 1 / 2 := by
    calc (bound * (m * 2 ^ (-1074 : Int)) : Rat) ≤ 2 ^ 52 * (2 ^ 52 * 2 ^ (-1074 : Int)) := by
          gcongr
      _ ≤ 2 ^ 52 * (2 ^ 52 * 2 ^ (-105 : Int)) := by
          gcongr <;> norm_num
      _ = 1 / 2 := by norm_num
  exact absurd (hlarge.trans hvanishing) (by norm_num)

/-- A power of two is a fraction with a small denominator, or below all of them. -/
theorem mul_two_pow_lt_of_den {j : Nat} (hbound : bound ≤ 2 ^ 52)
    (hr : bound < ((1 : Nat) * 2 ^ (-j : Int) : Rat).den) :
    (bound * ((1 : Nat) * 2 ^ (-j : Int)) : Rat) < 1 - 2⁻¹ ^ 53 := by
  by_contra hlarge
  have hboundr : (bound : Rat) ≤ 2 ^ 52 := by exact_mod_cast hbound
  have hmore : ((bound + 1 : Nat) : Rat) ≤ 2 ^ j := by
    exact_mod_cast hr.trans_le (den_mul_two_pow_le 1 j)
  rw [Nat.cast_one, one_mul, zpow_neg, zpow_natCast, not_lt] at hlarge
  have hpos : (0 : Rat) < (2 ^ j)⁻¹ := by positivity
  have hfew : ((bound + 1 : Nat) : Rat) * (2 ^ j)⁻¹ ≤ 1 :=
    (mul_le_mul_of_nonneg_right hmore hpos.le).trans_eq (mul_inv_cancel₀ (by positivity))
  rw [Nat.cast_add_one, add_one_mul] at hfew
  have hhalf : (bound : Rat) * (2 ^ j)⁻¹ ≤ 2 ^ 52 * 2⁻¹ ^ 53 :=
    mul_le_mul hboundr (by linarith) hpos.le (by norm_num)
  norm_num at hhalf hlarge
  linarith

/-- A double that is no fraction with a small denominator, though one converts to it: it has full
digits, is no power of two, and the bound is less than its binary places count. -/
theorem exists_binary_places (hcanonical : Canonical m e) (hr : bound < (m * 2 ^ e : Rat).den)
    (hbound : bound ≤ 2 ^ 52) (hf : 0 < f) (hden : f.den ≤ bound)
    (h : nearestDouble f = m * 2 ^ e) :
    toDouble f = m * 2 ^ e ∧ 2 ^ 52 < m ∧ ∃ k : Nat, e = -k ∧ bound < 2 ^ k := by
  obtain ⟨hnormal, hlarge⟩ := le_bound_mul_of_nearestDouble hf hden hbound
  rw [nearestDouble_of_le (hnormal.trans (le_abs_self f))] at h
  rw [h] at hlarge
  have hone : 1 ≤ bound := f.den_pos.trans_le hden
  have hwhole (n : Nat) : (m * 2 ^ e : Rat) ≠ n := by
    intro hn
    rw [hn, Rat.den_natCast] at hr
    omega
  obtain ⟨k, rfl | rfl⟩ := e.eq_nat_or_neg
  · exact absurd (by push_cast; rw [zpow_natCast]) (hwhole (m * 2 ^ k))
  have hfull := two_pow_52_le_of_large hcanonical hbound hlarge
  refine ⟨h, lt_of_le_of_ne hfull ?_, k, rfl, hr.trans_le (den_mul_two_pow_le m k)⟩
  rintro rfl
  have hpower : ((2 ^ 52 : Nat) : Rat) = 2 ^ (52 : Int) := by norm_num
  rcases Nat.le_total k 52 with hk | hk
  · refine hwhole (2 ^ (52 - k)) ?_
    rw [hpower, ← zpow_add₀ (by norm_num), Nat.cast_pow, Nat.cast_ofNat, ← zpow_natCast]
    congr 1
    omega
  · obtain ⟨j, rfl⟩ := Nat.exists_eq_add_of_le hk
    have hvalue : ((2 ^ 52 : Nat) * 2 ^ (-(52 + j : Nat) : Int) : Rat) =
        (1 : Nat) * 2 ^ (-j : Int) := by
      rw [hpower, ← zpow_add₀ (by norm_num), Nat.cast_one, one_mul]
      congr 1
      omega
    rw [hvalue] at hr hlarge
    exact absurd hlarge (mul_two_pow_lt_of_den hbound hr).not_ge

/-- The ends of the interval that is rounded to a double are no fractions with a small
denominator. -/
theorem abs_sub_ne_half {k : Nat} (hplaces : bound < 2 ^ k) (hden : f.den ≤ bound) :
    |f - m * 2 ^ (-k : Int)| ≠ 1 / 2 * 2 ^ (-k : Int) := by
  intro h
  have hscale : (2 : Rat) ^ (-k : Int) * 2 ^ (k + 1) = 2 := by
    rw [pow_succ, ← mul_assoc, ← zpow_natCast, ← zpow_add₀ (by norm_num), neg_add_cancel, zpow_zero,
      one_mul]
  have hodd : ∃ j : Int, Odd j ∧ f * 2 ^ (k + 1) = j := by
    rcases abs_choice (f - m * 2 ^ (-k : Int)) with hsign | hsign
    · refine ⟨2 * m + 1, ⟨m, rfl⟩, ?_⟩
      push_cast
      linear_combination 2 ^ (k + 1) * (h - hsign) + (m + 1 / 2) * hscale
    · refine ⟨2 * (m - 1) + 1, ⟨m - 1, rfl⟩, ?_⟩
      push_cast
      linear_combination -2 ^ (k + 1) * (h - hsign) + (m - 1 / 2) * hscale
  obtain ⟨j, hj, hparts⟩ := hodd
  have hmany := two_pow_le_den hj hparts
  have := Nat.pow_lt_pow_right (show 1 < 2 by decide) k.lt_succ_self
  omega

theorem converts_of_closer_of_pos (hcanonical : Canonical m e)
    (hr : bound < (m * 2 ^ e : Rat).den) (hbound : bound ≤ 2 ^ 52) (hf : 0 < f)
    (hden : f.den ≤ bound) (h : nearestDouble f = m * 2 ^ e)
    (hcloser : |c - m * 2 ^ e| ≤ |f - m * 2 ^ e|) : nearestDouble c = m * 2 ^ e := by
  obtain ⟨hvalue, hlow, k, rfl, hplaces⟩ := exists_binary_places hcanonical hr hbound hf hden h
  have hscale : (0 : Rat) < 2 ^ (-k : Int) := by positivity
  have hlow' : (2 ^ 52 + 1 : Rat) ≤ m := by exact_mod_cast hlow
  have hhigh' : (m : Rat) ≤ 2 ^ 53 - 1 := by
    have : (m + 1 : Rat) ≤ 2 ^ 53 := by exact_mod_cast hcanonical.lt
    linarith
  have hnear : |c - m * 2 ^ (-k : Int)| < 1 / 2 * 2 ^ (-k : Int) :=
    hcloser.trans_lt ((abs_sub_le_of_toDouble_eq hlow hcanonical.lt hvalue).lt_of_ne
      (abs_sub_ne_half hplaces hden))
  obtain ⟨q, rfl⟩ : ∃ q, c = q * 2 ^ (-k : Int) :=
    ⟨c / 2 ^ (-k : Int), (div_mul_cancel₀ _ hscale.ne').symm⟩
  rw [← sub_mul, abs_mul, abs_of_pos hscale] at hnear
  have hnear := lt_of_mul_lt_mul_right hnear hscale.le
  obtain ⟨hleft, hright⟩ := abs_lt.mp hnear
  have hq : (2 : Rat) ^ 52 ≤ q := by linarith
  have hnormal : (2 : Rat) ^ (-1022 : Int) ≤ q * 2 ^ (-k : Int) := by
    calc (2 : Rat) ^ (-1022 : Int) ≤ (2 ^ 52 : Nat) * 2 ^ (-k : Int) :=
          least_le_of_digits le_rfl hcanonical.least_le
      _ ≤ q * 2 ^ (-k : Int) := mul_le_mul_of_nonneg_right (by exact_mod_cast hq) hscale.le
  rw [nearestDouble_of_le (hnormal.trans (le_abs_self _))]
  exact toDouble_of_near hq (by linarith) hnear _

theorem pos_of_nearestDouble_pos (h : 0 < nearestDouble f) : 0 < f := by
  by_contra hneg
  have hopposite := nearestDouble_nonneg (neg_nonneg.mpr (not_lt.mp hneg))
  rw [nearestDouble_neg] at hopposite
  linarith

theorem unit_mul_unit_mul (s : Sign) (r : Rat) : unit s * (unit s * r) = r := by
  rcases abs_eq (zero_le_one' Rat) |>.mp (abs_unit s) with h | h <;> rw [h] <;> ring

theorem den_unit_mul (s : Sign) (r : Rat) : (unit s * r).den = r.den := by
  rcases abs_eq (zero_le_one' Rat) |>.mp (abs_unit s) with h | h
  · rw [h, one_mul]
  · rw [h, neg_one_mul, Rat.den_neg_eq_den]

theorem abs_unit_mul_sub (s : Sign) (a b : Rat) : |unit s * a - b| = |a - unit s * b| := by
  rw [← one_mul |a - unit s * b|, ← abs_unit s, ← abs_mul, mul_sub, unit_mul_unit_mul]

/-- **What is no further away from a double than a fraction that converts to it converts to it
too.** -/
theorem converts_of_closer (hx : toRat? x = some r) (hr : bound < r.den) (hbound : bound ≤ 2 ^ 52)
    (hden : f.den ≤ bound) (h : nearestDouble f = r) (hcloser : |c - r| ≤ |f - r|) :
    nearestDouble c = r := by
  rcases exists_unpack_of_toRat? hx with ⟨s, -, rfl⟩ | ⟨s, m, e, hm, -, hcanonical, rfl⟩
  · exact absurd (hr.trans_le (f.den_pos.trans_le hden)) (lt_irrefl _)
  · rw [apply_eq, mul_assoc] at *
    rw [den_unit_mul] at hr
    rw [← abs_unit_mul_sub, ← abs_unit_mul_sub] at hcloser
    have hsize : nearestDouble (unit s * f) = m * 2 ^ e := by
      rw [nearestDouble_unit_mul, h, unit_mul_unit_mul]
    have hpos : 0 < unit s * f := pos_of_nearestDouble_pos (by rw [hsize]; positivity)
    have hconverts := converts_of_closer_of_pos hcanonical hr hbound hpos
      (by rwa [den_unit_mul]) hsize hcloser
    rw [← unit_mul_unit_mul s c, nearestDouble_unit_mul, hconverts]

/-! ## The fraction that a double stands for -/

theorem rationalize?_eq_some (hx : toRat? x = some r) :
    rationalize? bound x = some f ↔ closestFraction bound r = f ∧ (ofRat f == x) = true := by
  simp only [rationalize?, hx, Option.bind_eq_bind, Option.bind_some]
  split
  · next h => exact ⟨fun hf ↦ Option.some.inj hf ▸ ⟨rfl, h⟩, fun hf ↦ congrArg some hf.1⟩
  · next h =>
    exact ⟨fun hf ↦ absurd hf.symm (Option.some_ne_none f), fun hf ↦ absurd (hf.1 ▸ hf.2) h⟩

/-- **The closest fraction converts to a double if any with a small denominator does.** -/
theorem rationalize?_of_converts (hx : toRat? x = some r) (hbound : bound ≤ 2 ^ 52)
    (hden : f.den ≤ bound) (h : (ofRat f == x) = true) :
    rationalize? bound x = some (closestFraction bound r) := by
  rw [rationalize?_eq_some hx, ofRat_beq_iff hx]
  rw [ofRat_beq_iff hx] at h
  refine ⟨rfl, ?_⟩
  rcases Nat.lt_or_ge bound r.den with hr | hr
  · exact converts_of_closer hx hr hbound hden h
      ((closestFraction_spec (f.den_pos.trans_le hden) r).2 f hden)
  · rw [closestFraction, if_pos hr]
    exact (finite_eq_some.mp (finite_nearestDouble hx)).1

theorem rationalize?_spec (hx : toRat? x = some r) (hbound : 0 < bound)
    (h : rationalize? bound x = some f) : f.den ≤ bound ∧ (ofRat f == x) = true := by
  obtain ⟨rfl, hconverts⟩ := (rationalize?_eq_some hx).mp h
  exact ⟨(closestFraction_spec hbound r).1, hconverts⟩

end Binary64

namespace Datum

open Binary64

variable {x : Float}

theorem rationalized_of_finite (hx : x.isFinite = true) (asFraction : Bool) :
    (real x).rationalized asFraction denominatorBound =
      match rationalize? 1000000 x with
      | some f => .ok (if asFraction then .fraction f else ofRat f)
      | Option.none => .error (.inexactRational (Binary64.text x)) := by
  have hbound : denominatorBound.toNat = 1000000 := rfl
  have hone : ¬denominatorBound < 1 := by decide
  rw [rationalized, rationalize, hx, hbound, if_neg (by decide), if_neg hone]
  cases rationalize? 1000000 x <;> rfl

/-- **The exact exponents are the doubles that a fraction with a small denominator converts to.**
A finite double is accepted exactly if some fraction with a denominator up to a million converts to
it; the answer is then such a fraction, or the same as an integer if it is one and need not be a
fraction.  All others are refused. -/
theorem rationalized_real (hx : x.isFinite = true) :
    ((∃ d, (real x).rationalized true denominatorBound = .ok d) ↔
      ∃ f : Rat, f.den ≤ 1000000 ∧ (Binary64.ofRat f == x) = true) ∧
    (∀ d, (real x).rationalized true denominatorBound = .ok d →
      ∃ f : Rat, d = .fraction f ∧ f.den ≤ 1000000 ∧ (Binary64.ofRat f == x) = true ∧
        (real x).rationalized false denominatorBound =
          .ok (if f.den = 1 then .int f.num else .fraction f)) ∧
    ((∀ f : Rat, f.den ≤ 1000000 → (Binary64.ofRat f == x) = false) → ∀ asFraction,
      (real x).rationalized asFraction denominatorBound =
        .error (.inexactRational (Binary64.text x))) := by
  obtain ⟨r, hr⟩ := isFinite_iff.mp hx
  have hspec {f : Rat} (h : rationalize? 1000000 x = some f) := rationalize?_spec hr (by decide) h
  simp only [rationalized_of_finite hx]
  refine ⟨⟨?_, ?_⟩, ?_, ?_⟩
  · rintro ⟨d, hd⟩
    cases h : rationalize? 1000000 x with
    | none => rw [h] at hd; cases hd
    | some f => exact ⟨f, hspec h⟩
  · rintro ⟨f, hden, hconverts⟩
    rw [rationalize?_of_converts hr (by norm_num) hden hconverts]
    exact ⟨_, rfl⟩
  · intro d hd
    cases h : rationalize? 1000000 x with
    | none => rw [h] at hd; cases hd
    | some f =>
      rw [h] at hd
      obtain ⟨hden, hconverts⟩ := hspec h
      exact ⟨f, (Except.ok.inj hd).symm, hden, hconverts, rfl⟩
  · intro hnone asFraction
    cases h : rationalize? 1000000 x with
    | none => rfl
    | some f =>
      obtain ⟨hden, hconverts⟩ := hspec h
      rw [hnone f hden] at hconverts
      cases hconverts

/-- Two thirds, rounded. -/
def twoThirds : Float :=
  Binary64.ofRat (2 / 3)

/-- The double nearest to two thirds stands for a fraction. -/
theorem rationalized_real_twoThirds :
    twoThirds.isFinite = true ∧ ∃ f : Rat, f.den ≤ 1000000 ∧
      (Binary64.ofRat f == twoThirds) = true ∧
      (real twoThirds).rationalized true denominatorBound = .ok (.fraction f) := by
  have hfinite : twoThirds.isFinite = true := by decide +kernel
  obtain ⟨hiff, hanswer, -⟩ := rationalized_real hfinite
  obtain ⟨d, hd⟩ := hiff.mpr ⟨2 / 3, by decide +kernel, by decide +kernel⟩
  obtain ⟨f, rfl, hden, hconverts, -⟩ := hanswer d hd
  exact ⟨hfinite, f, hden, hconverts, hd⟩

end Datum
end Mensura
