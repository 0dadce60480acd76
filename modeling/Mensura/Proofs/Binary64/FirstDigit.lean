import Mensura.Proofs.Binary64.Places

/-!
# The first digit of a double

The decimal exponent of a double is guessed from its logarithm and corrected once: the double,
shifted by the guess, is compared with one and ten.  Where it is below one the guess is lowered, and
the shift that is then taken is by another number of places than the one that was looked at.  Each
of them rounds, so the result may be ten: the double `Slips`.

* `exists_first_digit`: the shift ends between one and ten, and at ten only if the double slips.
* `Clear.not_slips`: only sizes right beside a power of ten below a tenth slip.
-/

set_option autoImplicit false

open Float.Model.UnpackedFloat

namespace Mensura
namespace Binary64

variable {x y : Float} {a b s t : Rat}

/-! ## The guess -/

theorem shiftRatio_quotient (num : Nat) {den : Nat} (hden : 0 < den) (e : Int) :
    0 < (Decimal.shiftRatio num den e).2 ∧
      ((Decimal.shiftRatio num den e).1 / (Decimal.shiftRatio num den e).2 : Rat) =
        num / den * 10 ^ e := by
  cases e with
  | ofNat k => simp [Decimal.shiftRatio, hden, div_mul_eq_mul_div]
  | negSucc k => simp [Decimal.shiftRatio, hden, zpow_negSucc, div_mul_eq_div_mul_one_div]

/-- The exponent that a logarithm computed with rounding gives to a size whose order is `k`. -/
def roundedLog (k : Int) (r : Rat) : Int :=
  if 10 ^ (k + 1) * (1 - (k + 1).natAbs * 2⁻¹ ^ 53) ≤ r then k + 1 else k

theorem logFloor_eq {num den : Nat} (hnum : 0 < num) (hden : 0 < den) :
    logFloor num den = roundedLog (Decimal.orderOf num den) (num / den) := by
  have hhigh := (Decimal.orderOf_bounds hnum hden).2
  rw [logFloor, roundedLog]
  dsimp only
  rw [add_sub_cancel_right]
  generalize Decimal.orderOf num den + 1 = next at hhigh ⊢
  obtain ⟨hpos, hquotient⟩ := shiftRatio_quotient num hden (-next)
  generalize Decimal.shiftRatio num den (-next) = shifted at hpos hquotient ⊢
  obtain ⟨n, d⟩ := shifted
  have hd : (0 : Rat) < d := by exact_mod_cast hpos
  have hten : (0 : Rat) < 10 ^ next := by positivity
  have hsize : (num / den : Rat) = n / d * 10 ^ next := by
    rw [hquotient, mul_assoc, ← zpow_add₀ (by norm_num), neg_add_cancel, zpow_zero, mul_one]
  rw [hsize] at hhigh ⊢
  have hless : (n : Rat) < d := by
    rwa [mul_lt_iff_lt_one_left hten, div_lt_one hd] at hhigh
  have hle : n ≤ d := by exact_mod_cast hless.le
  refine if_congr ?_ rfl rfl
  rw [← Nat.cast_le (α := Rat), mul_comm ((10 : Rat) ^ next), mul_le_mul_iff_left₀ hten,
    le_div_iff₀ hd]
  push_cast [Nat.cast_sub hle]
  constructor <;> intro h <;> norm_num at h ⊢ <;> linarith

/-- The decimal exponent that the logarithm of a double gives. -/
def guess (x : Float) : Int :=
  match reading x with
  | .finite _ num den => logFloor num den
  | _ => 0

/-- The guess depends on the size alone. -/
theorem guess_eq {k : Int} (hx : toRat? x = some a) (hlow : 10 ^ k ≤ |a|)
    (hhigh : |a| < 10 ^ (k + 1)) : guess x = roundedLog k |a| := by
  have hpos : 0 < |a| := hlow.trans_lt' (by positivity)
  obtain ⟨negative, num, den, hreading, hquotient⟩ := reading_of_toRat? hx
  rw [← hquotient] at hpos hlow hhigh
  have hnum : 0 < num := Nat.pos_of_ne_zero (by rintro rfl; simp at hpos)
  have hden : 0 < den := Nat.pos_of_ne_zero (by rintro rfl; simp at hpos)
  rw [guess, hreading, ← hquotient, ← orderOf_eq hnum hden hlow hhigh]
  exact logFloor_eq hnum hden

/-- The guess is corrected by one, up or down. -/
theorem ilog10_eq_guess (hx : toRat? x = some a) (ha : a ≠ 0) :
    ilog10 x = if 10 ≤ scale10 x.abs (-guess x) then guess x + 1
      else if scale10 x.abs (-guess x) < 1 then guess x - 1 else guess x := by
  obtain ⟨negative, num, den, hreading, hquotient⟩ := reading_of_toRat? hx
  have hnum : num ≠ 0 := by
    rintro rfl
    rw [Nat.cast_zero, zero_div, eq_comm, abs_eq_zero] at hquotient
    exact ha hquotient
  simp only [ilog10, guess, hreading, if_neg hnum]

theorem exists_order (ha : a ≠ 0) : ∃ k : Int, 10 ^ k ≤ |a| ∧ |a| < 10 ^ (k + 1) :=
  ⟨Int.log 10 |a|, by exact_mod_cast Int.zpow_log_le_self (by norm_num) (abs_pos.mpr ha),
    by exact_mod_cast Int.lt_zpow_succ_log_self (by norm_num) |a|⟩

/-- The orders of doubles. -/
theorem order_bounds {k : Int} (hx : toRat? x = some a) (hlow : 10 ^ k ≤ |a|)
    (hhigh : |a| < 10 ^ (k + 1)) : -401 ≤ k ∧ k ≤ 400 := by
  have hne : a ≠ 0 := abs_pos.mp (hlow.trans_lt' (by positivity))
  have hlarge : (2 : Rat) ^ (1200 : Int) ≤ 10 ^ (400 : Int) := by
    calc (2 : Rat) ^ (1200 : Int) = (2 ^ 3) ^ 400 := by
          rw [← pow_mul]
          exact zpow_natCast 2 1200
      _ ≤ 10 ^ 400 := pow_le_pow_left₀ (by norm_num) (by norm_num) 400
      _ = 10 ^ (400 : Int) := (zpow_natCast 10 400).symm
  have hsmall : (10 : Rat) ^ (-400 : Int) ≤ 2 ^ (-1200 : Int) := by
    rw [zpow_neg, zpow_neg]
    exact inv_anti₀ (by positivity) hlarge
  have htwo {i j : Int} (hij : i ≤ j) : (2 : Rat) ^ i ≤ 2 ^ j :=
    zpow_le_zpow_right₀ (by norm_num) hij
  constructor
  · have hleast := (hsmall.trans (htwo (by norm_num))).trans (two_pow_le_abs_of_toRat? hx hne)
    have := (zpow_lt_zpow_iff_right₀ (by norm_num)).mp (hleast.trans_lt hhigh)
    omega
  · have hgreatest := (abs_lt_of_toRat? hx).le.trans ((htwo (by norm_num)).trans hlarge)
    exact (zpow_le_zpow_iff_right₀ (by norm_num)).mp (hlow.trans hgreatest)

/-- What a guess `e` leaves of a size: the guess is too large by one at most, and only right below
a power of ten. -/
structure Guessed (e : Int) (r : Rat) : Prop where
  near : e.natAbs ≤ 401
  least_le : 9 / 10 ≤ r
  lt : r < 1 ∨ r < 10 * (1 - (e + 1).natAbs * 2⁻¹ ^ 53)

theorem Guessed.lt_ten {e : Int} {r : Rat} (h : Guessed e r) : r < 10 := by
  have hnonneg : (0 : Rat) ≤ (e + 1).natAbs * 2⁻¹ ^ 53 := by positivity
  rcases h.lt with hlt | hlt <;> linarith

theorem guessed (hx : toRat? x = some a) (ha : a ≠ 0) :
    Guessed (guess x) (|a| * 10 ^ (-guess x)) := by
  obtain ⟨k, hlow, hhigh⟩ := exists_order ha
  have hbounds := order_bounds hx hlow hhigh
  have hscale {n : Int} : (0 : Rat) < 10 ^ n := by positivity
  rw [guess_eq hx hlow hhigh, roundedLog]
  split
  · next hnear =>
    rw [zpow_neg, ← div_eq_mul_inv]
    refine ⟨by omega, ?_, .inl ((div_lt_one hscale).mpr hhigh)⟩
    have hfew : ((k + 1).natAbs : Rat) ≤ 401 := by exact_mod_cast (by omega)
    rw [le_div_iff₀ hscale, mul_comm]
    refine (mul_le_mul_of_nonneg_left ?_ hscale.le).trans hnear
    generalize ((k + 1).natAbs : Rat) = n at hfew
    norm_num
    linarith
  · next hfar =>
    rw [not_le, zpow_add_one₀ (by norm_num), mul_assoc] at hfar
    rw [zpow_neg, ← div_eq_mul_inv]
    refine ⟨by omega, ?_, .inr ((div_lt_iff₀ hscale).mpr (by rwa [mul_comm]))⟩
    rw [le_div_iff₀ hscale]
    linarith [hscale (n := k)]

/-- What lies below a bound by more than a few roundings stays below it. -/
theorem Within.lt_of_far {k m : Nat} {r bound : Rat} (h : Within k s r) (hk : k ≤ m)
    (hbound : 0 < bound) (hr : r < bound * (1 - m * 2⁻¹ ^ 53)) : s < bound := by
  have hpower : (0 : Rat) < (1 - 2⁻¹ ^ 53) ^ k := pow_pos (by norm_num) k
  have hbernoulli := one_add_mul_le_pow (by norm_num : (-2 : Rat) ≤ -2⁻¹ ^ 53) k
  rw [← sub_eq_add_neg] at hbernoulli
  have hcount : (k : Rat) ≤ m := by exact_mod_cast hk
  refine lt_of_mul_lt_mul_right ?_ hpower.le
  calc s * (1 - 2⁻¹ ^ 53) ^ k ≤ r := h.le'
    _ < bound * (1 - m * 2⁻¹ ^ 53) := hr
    _ ≤ bound * (1 + k * -2⁻¹ ^ 53) := mul_le_mul_of_nonneg_left (by linarith) hbound.le
    _ ≤ bound * (1 - 2⁻¹ ^ 53) ^ k := mul_le_mul_of_nonneg_left hbernoulli hbound.le

theorem abs_beq_zero (hx : toRat? x = some a) (ha : a ≠ 0) : (x.abs == 0) = false :=
  beq_zero_eq_false (toRat?_abs hx) (abs_ne_zero.mpr ha)

/-- A single multiplication does not reach ten. -/
theorem scale10_one_lt_ten (hx : toRat? x = some a) (ha : a ≠ 0) (hless : |a| < 1)
    (hs : toRat? (scale10 x.abs 1) = some s) : s < 10 := by
  have hone : scale10 x.abs 1 = x.abs * tenPower 1 :=
    scale10_of_pos (abs_beq_zero hx ha) Nat.one_pos
  rw [hone] at hs
  rw [eq_of_mul_tenPower (toRat?_abs hx) (by decide) hs, pow_one]
  have hrounded := nearestDouble_mul_lt (c := 10) hless (toDouble_of_toRat? (toRat?_abs hx))
    (by simpa using toDouble_ten_pow (k := 0) (by decide)) (by norm_num) (by norm_num)
  rwa [one_mul] at hrounded

/-- Shifted by the guess, a double is smaller than ten. -/
theorem Guessed.scale10_lt_ten {e : Int} (hx : toRat? x = some a) (ha : a ≠ 0)
    (h : Guessed e (|a| * 10 ^ (-e))) (hs : toRat? (scale10 x.abs (-e)) = some s)
    (hwithin : Within (roundings (-e)) s (|a| * 10 ^ (-e))) : s < 10 := by
  rcases h.lt with hlt | hlt
  · have hnear := h.near
    have hclose := (hwithin.bounds (by rw [roundings]; omega)).2
    generalize |a| * 10 ^ (-e) = r at hlt hclose
    norm_num at hclose
    linarith
  rcases eq_or_ne e (-1) with rfl | he
  · -- Here no rounding is accounted for.
    refine scale10_one_lt_ten hx ha ?_ hs
    norm_num at hlt
    linarith
  · have hcount : roundings (-e) ≤ (e + 1).natAbs := by
      rw [roundings]
      omega
    exact hwithin.lt_of_far hcount (by norm_num) hlt

theorem exists_scale10_abs (hx : toRat? x = some a) (ha : a ≠ 0) {n : Int} (hfar : n.natAbs ≤ 700)
    (hlow : 1 / 10 ≤ |a| * 10 ^ n) (hhigh : |a| * 10 ^ n ≤ 100) :
    ∃ s, toRat? (scale10 x.abs n) = some s ∧ Within (roundings n) s (|a| * 10 ^ n) := by
  have hpos : 0 < |a| := abs_pos.mpr ha
  have hsize : |(|a| * 10 ^ n)| = |a| * 10 ^ n := abs_of_pos (by positivity)
  obtain ⟨s, hs, hsign, hwithin⟩ := approx_scale10 (n := n) (toRat?_abs hx) hpos.ne' hfar (by
    rw [hsize]
    exact .of_zpow (e := -1) (f := 2) (hlow.trans' (by norm_num)) (hhigh.trans (by norm_num))
      (by decide) (by decide))
  rw [abs_of_pos (pos_of_mul_pos_left hsign (by positivity)), hsize] at hwithin
  exact ⟨s, hs, hwithin⟩

/-- The two shifts that the correction of the guess looks at or takes: by the guess, and by one
place more to the left. -/
structure Shifts (x : Float) (r s t : Rat) : Prop where
  guessed : toRat? (scale10 x.abs (-guess x)) = some s
  further : toRat? (scale10 x.abs (1 - guess x)) = some t
  lt_ten : s < 10
  one_le : 1 ≤ t
  le_ten : s < 1 → t ≤ 10
  lt_ten_of_nonneg : s < 1 → 0 ≤ guess x → t < 10
  within : Within (roundings (1 - guess x)) t (r * 10 ^ (1 - guess x))

theorem exists_shifts (hx : toRat? x = some a) (ha : a ≠ 0) : ∃ s t, Shifts x |a| s t := by
  have hguessed := guessed hx ha
  have hnear := hguessed.near
  have hleast := hguessed.least_le
  have hlt := hguessed.lt_ten
  have hten : |a| * 10 ^ (1 - guess x) = |a| * 10 ^ (-guess x) * 10 := by
    rw [sub_eq_neg_add, zpow_add_one₀ (by norm_num), mul_assoc]
  obtain ⟨s, hs, hwithin⟩ := exists_scale10_abs (n := -guess x) hx ha (by omega)
    (by linarith) (by linarith)
  obtain ⟨t, ht, hwithin'⟩ := exists_scale10_abs (n := 1 - guess x) hx ha (by omega)
    (by rw [hten]; linarith) (by rw [hten]; linarith)
  have hone : 1 ≤ t := by
    have hclose := (hwithin'.bounds (by rw [roundings]; omega)).1
    rw [hten] at hclose
    generalize |a| * 10 ^ (-guess x) = r at hleast hclose
    norm_num at hclose
    linarith
  have hlow (hge : 0 ≤ guess x) (hless : s < 1) : t < 10 := by
    rcases hge.eq_or_lt with hzero | hgt
    · rw [← hzero, neg_zero, scale10_zero_places, toRat?_abs hx] at hs
      rw [← hzero, sub_zero] at ht
      exact scale10_one_lt_ten hx ha ((Option.some.inj hs).trans_lt hless) ht
    · obtain ⟨n, hn⟩ := Int.eq_ofNat_of_zero_le (show 0 ≤ guess x - 1 by omega)
      rw [show -guess x = -((n + 1 : Nat) : Int) by omega] at hs
      rw [show 1 - guess x = -(n : Int) by omega] at ht
      exact lt_ten_of_scale10_lt_one (abs_beq_zero hx ha) (by omega) hs ht hless
  refine ⟨s, t, hs, ht, hguessed.scale10_lt_ten hx ha hs hwithin, hone, fun hless ↦ ?_,
    fun hless hge ↦ hlow hge hless, hwithin'⟩
  rcases Int.le_total 0 (guess x) with hge | hle
  · exact (hlow hge hless).le
  · obtain ⟨n, hn⟩ := Int.eq_ofNat_of_zero_le (show 0 ≤ -guess x by omega)
    rw [hn] at hs
    rw [show 1 - guess x = ((n + 1 : Nat) : Int) by omega] at ht
    exact le_ten_of_scale10_lt_one (abs_beq_zero hx ha) (by omega) hs ht hless

/-! ## The first digit -/

/-- A double for which the shift that is looked at and the one that is taken disagree: the first
ends below one, the second, by one place more, at ten. -/
def Slips (x : Float) : Prop :=
  scale10 x.abs (-guess x) < 1 ∧ 10 ≤ scale10 x.abs (1 - guess x)

instance (x : Float) : Decidable (Slips x) :=
  inferInstanceAs (Decidable (_ ∧ _))

theorem Shifts.slips_iff {r : Rat} (h : Shifts x r s t) : Slips x ↔ s < 1 ∧ t = 10 := by
  rw [Slips, lt_iff h.guessed toRat?_one, le_iff toRat?_ten h.further]
  exact ⟨fun ⟨hless, hge⟩ ↦ ⟨hless, (h.le_ten hless).antisymm hge⟩,
    fun ⟨hless, hten⟩ ↦ ⟨hless, hten.ge⟩⟩

theorem exists_first_digit_abs (hx : toRat? x = some a) (ha : a ≠ 0) :
    ∃ s, toRat? (scale10 x.abs (-ilog10 x)) = some s ∧ 1 ≤ s ∧ s ≤ 10 ∧ (s = 10 ↔ Slips x) := by
  obtain ⟨s, t, h⟩ := exists_shifts hx ha
  rw [h.slips_iff, ilog10_eq_guess hx ha, if_neg (by
    rw [le_iff toRat?_ten h.guessed, not_le]
    exact h.lt_ten)]
  split
  · next hless =>
    rw [lt_iff h.guessed toRat?_one] at hless
    refine ⟨t, ?_, h.one_le, h.le_ten hless, (and_iff_right hless).symm⟩
    rw [neg_sub]
    exact h.further
  · next hge =>
    rw [lt_iff h.guessed toRat?_one, not_lt] at hge
    exact ⟨s, h.guessed, hge, h.lt_ten.le,
      iff_of_false h.lt_ten.ne fun hslips ↦ absurd hslips.1 (not_lt.mpr hge)⟩

/-- **Shifted by its decimal exponent, a double has a size between one and ten**, and it is ten only
if the double slips.  The sign is kept. -/
theorem exists_first_digit (hx : toRat? x = some a) (ha : a ≠ 0) :
    ∃ s, toRat? (scale10 x (-ilog10 x)) = some s ∧ 0 < s * a ∧ 1 ≤ |s| ∧ |s| ≤ 10 ∧
      (|s| = 10 ↔ Slips x) := by
  obtain ⟨t, ht, hone, hten, hslips⟩ := exists_first_digit_abs hx ha
  have ht0 : 0 < t := zero_lt_one.trans_le hone
  obtain ⟨σ, hσ⟩ := exists_unit (abs_abs a)
  have habs := toRat?_abs hx
  have hvalue := ((Signed.of_eq habs (hσ ▸ hx)).scale10 habs (-ilog10 x)).value ht
  have hsize : |unit σ * t| = t := by rw [abs_mul, abs_unit, one_mul, abs_of_pos ht0]
  refine ⟨unit σ * t, hvalue, ?_, by rwa [hsize], by rwa [hsize], by rwa [hsize]⟩
  have hsquare : unit σ * unit σ = 1 := by cases σ <;> simp [unit]
  calc 0 < t * |a| := mul_pos ht0 (abs_pos.mpr ha)
    _ = unit σ * unit σ * (t * |a|) := by rw [hsquare, one_mul]
    _ = unit σ * t * (unit σ * |a|) := mul_mul_mul_comm _ _ _ _
    _ = unit σ * t * a := by rw [← hσ]

/-- Whether a double slips depends on its size alone. -/
theorem slips_congr (hx : toRat? x = some a) (hy : toRat? y = some b) (ha : a ≠ 0)
    (h : |a| = |b|) : Slips x ↔ Slips y := by
  have hb : b ≠ 0 := abs_ne_zero.mp (h ▸ abs_ne_zero.mpr ha)
  obtain ⟨k, hlow, hhigh⟩ := exists_order ha
  have hguess : guess x = guess y := by
    rw [guess_eq hx hlow hhigh, h, guess_eq hy (h ▸ hlow) (h ▸ hhigh)]
  have hsame : Signed .positive x.abs y.abs :=
    .of_eq (toRat?_abs hx) (by rw [toRat?_abs hy, h, show unit .positive = 1 from rfl, one_mul])
  have hequal {n : Int} {c d : Rat} (hc : toRat? (scale10 x.abs n) = some c)
      (hd : toRat? (scale10 y.abs n) = some d) : c = d := by
    have hvalue := (hsame.scale10 (toRat?_abs hx) n).value hc
    rw [hd, Option.some.injEq, show unit .positive = 1 from rfl, one_mul] at hvalue
    exact hvalue.symm
  obtain ⟨s, t, hshifts⟩ := exists_shifts hx ha
  obtain ⟨s', t', hshifts'⟩ := exists_shifts hy hb
  rw [hshifts.slips_iff, hshifts'.slips_iff,
    hequal hshifts.guessed (hguess ▸ hshifts'.guessed),
    hequal hshifts.further (hguess ▸ hshifts'.further)]

/-- A size from a tenth on, or apart from all powers of ten. -/
def Clear (a : Rat) : Prop :=
  1 / 10 ≤ |a| ∨ ∀ k : Int, 10 ^ k / 10 ^ 12 < |(|a| - 10 ^ k)|

/-- **Only sizes right beside a power of ten below a tenth slip.** -/
theorem Clear.not_slips (hclear : Clear a) (hx : toRat? x = some a) (ha : a ≠ 0) : ¬Slips x := by
  intro h
  obtain ⟨s, t, hshifts⟩ := exists_shifts hx ha
  obtain ⟨hless, rfl⟩ := hshifts.slips_iff.mp h
  have hneg : guess x < 0 := by
    by_contra hge
    exact absurd (hshifts.lt_ten_of_nonneg hless (not_lt.mp hge)) (lt_irrefl _)
  have hnear := (guessed hx ha).near
  obtain ⟨hlow, hhigh⟩ := hshifts.within.bounds (by rw [roundings]; omega)
  have hpower : (0 : Rat) < 10 ^ guess x := by positivity
  have hsize : |a| * 10 ^ (1 - guess x) = |a| / 10 ^ guess x * 10 := by
    rw [sub_eq_neg_add, zpow_add_one₀ (by norm_num), zpow_neg, div_eq_mul_inv, mul_assoc]
  rw [hsize] at hlow hhigh
  have hratio : |(|a| / 10 ^ guess x - 1)| ≤ 1 / 10 ^ 12 := by
    generalize |a| / 10 ^ guess x = q at hlow hhigh
    norm_num at hlow hhigh
    rw [abs_le]
    constructor <;> norm_num <;> linarith
  have hclose : |(|a| - 10 ^ guess x)| ≤ 10 ^ guess x / 10 ^ 12 := by
    calc |(|a| - 10 ^ guess x)| = |(|a| / 10 ^ guess x - 1)| * 10 ^ guess x := by
          rw [← abs_of_pos hpower, ← abs_mul, abs_of_pos hpower, sub_one_mul,
            div_mul_cancel₀ _ hpower.ne']
      _ ≤ 1 / 10 ^ 12 * 10 ^ guess x := mul_le_mul_of_nonneg_right hratio hpower.le
      _ = 10 ^ guess x / 10 ^ 12 := one_div_mul_eq_div _ _
  refine absurd hclear (not_or.mpr ⟨?_, fun hapart ↦ absurd (hapart (guess x)) hclose.not_gt⟩)
  rw [not_le]
  rcases eq_or_ne (guess x) (-1) with hone | hsmaller
  · have hguessed := hshifts.guessed
    rw [hone, neg_neg, show (1 : Int) = ((1 : Nat) : Int) from rfl,
      scale10_of_pos (abs_beq_zero hx ha) Nat.one_pos] at hguessed
    have hproduct : toRat? (x.abs * tenPower 1) = some s := hguessed
    rw [eq_of_mul_tenPower (toRat?_abs hx) (by decide) hproduct, pow_one] at hless
    by_contra hge
    exact absurd hless (not_lt.mpr (one_le_nearestDouble (by linarith)))
  · have hpower' : (10 : Rat) ^ guess x ≤ 10 ^ (-2 : Int) :=
      zpow_le_zpow_right₀ (by norm_num) (by omega)
    have hupper := (abs_le.mp hclose).2
    norm_num at hpower' hupper
    linarith

end Binary64
end Mensura
