import Mensura.Proofs.Binary64.Range
import Mensura.Proofs.Binary64.Scale
import Mensura.Scalar.Binary64

/-!
# Long shifts of the decimal point

A shift by more than twenty-two places goes in steps, each of which rounds.  `Approx k x r` says
that `x` is a double that at most `k` roundings have parted from `r`; it goes through products,
quotients, sums and shifts of any length, as long as the exact numbers stay `Inner`, well inside
the range of the doubles.

* `Approx.scale10`: a shift adds at most thirty-three roundings.
* `exists_toRat?_scale10_of_nonpos`: a shift to the right stays finite, whatever is lost.
* `toRat?_scale10_of_large`: a shift to the left by more than `308` places leaves the range, and
  `toRat?_scale10_of_small`: one to the right by `345` leaves nothing.
* `HasSign.scale10`: the sign is kept, also where nothing else is.
* `Approx.close`: after two hundred roundings two doubles still count as equal.
-/

set_option autoImplicit false

open Float.Model

namespace Mensura
namespace Binary64

variable {x y : Float} {a b : Rat}

/-! ## Shifts to the right -/

theorem finite_nearestDouble_of_lt {r : Rat} (h : |r| < 2 ^ (1023 : Int)) :
    finite (nearestDouble r) = some (nearestDouble r) := by
  refine finite_eq_some.mpr ⟨rfl, ?_⟩
  calc |nearestDouble r| ≤ 2 * |r| := abs_nearestDouble_le r
    _ < 2 * 2 ^ (1023 : Int) := mul_lt_mul_of_pos_left h (by norm_num)
    _ = 2 ^ (1024 : Int) := (zpow_one_add₀ (by norm_num) 1023).symm

/-- Dividing by a power of ten loses at most one binary place. -/
theorem exists_toRat?_div_tenPower {k : Nat} (hx : toRat? x = some a) (hk : 1 ≤ k) (hk' : k ≤ 22) :
    ∃ c, toRat? (x / tenPower k) = some c ∧ |c| ≤ 2 * |a| / 10 ^ k := by
  have hten : (10 : Rat) ≤ 10 ^ k := by
    simpa using pow_le_pow_right₀ (by norm_num : (1 : Rat) ≤ 10) hk
  have hsize : |a / 10 ^ k| = |a| / 10 ^ k := by
    rw [abs_div, abs_of_pos (by positivity : (0 : Rat) < 10 ^ k)]
  have hsmaller : |a / 10 ^ k| ≤ |a| / 10 := by
    rw [hsize]
    exact div_le_div_of_nonneg_left (abs_nonneg a) (by norm_num) hten
  have hless : |a / 10 ^ k| < 2 ^ (1023 : Int) := by
    have hmax : |a| < 2 * 2 ^ (1023 : Int) :=
      (abs_lt_of_toRat? hx).trans_eq (zpow_one_add₀ (by norm_num) 1023)
    have hpos : (0 : Rat) < 2 ^ (1023 : Int) := by positivity
    generalize (2 : Rat) ^ (1023 : Int) = bound at hmax hpos ⊢
    exact hsmaller.trans_lt (by linarith)
  refine ⟨nearestDouble (a / 10 ^ k), ?_, ?_⟩
  · rw [toRat?_div_eq hx (toRat?_tenPower hk') (by positivity), finite_nearestDouble_of_lt hless]
  · rw [mul_div_assoc, ← hsize]
    exact abs_nearestDouble_le (a / 10 ^ k)

/-- A step of a shift to the right leaves at least twenty-one places behind. -/
theorem exists_toRat?_scaleDown (steps : Nat) (hx : toRat? x = some a) :
    ∃ c, toRat? (scaleDown steps x) = some c ∧ |c| ≤ |a| / 10 ^ (21 * steps) := by
  induction steps generalizing x a with
  | zero => exact ⟨a, hx, by simp⟩
  | succ steps ih =>
    obtain ⟨c, hc, hle⟩ := exists_toRat?_div_tenPower (k := 22) hx (by decide) le_rfl
    obtain ⟨d, hd, hle'⟩ := ih hc
    refine ⟨d, hd, hle'.trans ?_⟩
    have hstep : |c| ≤ |a| / 10 ^ 21 := by
      norm_num at hle ⊢
      linarith [abs_nonneg a]
    calc |c| / 10 ^ (21 * steps) ≤ |a| / 10 ^ 21 / 10 ^ (21 * steps) :=
          div_le_div_of_nonneg_right hstep (by positivity)
      _ = |a| / 10 ^ (21 * (steps + 1)) := by
          rw [div_div, ← pow_add, Nat.add_comm 21, mul_add_one]

theorem restPlaces_bounds (n : Nat) : 1 ≤ restPlaces n ∧ restPlaces n ≤ 22 := by
  rw [restPlaces, exactTenPower]
  omega

/-- What a shift to the right leaves. -/
theorem exists_toRat?_scale10_of_neg {n : Int} (hn : n < 0) (hx : toRat? x = some a)
    (ha : a ≠ 0) : ∃ c, toRat? (scale10 x n) = some c ∧
      |c| ≤ 2 * |a| / 10 ^ (21 * fullSteps n.natAbs + restPlaces n.natAbs) := by
  obtain ⟨c, hc, hle⟩ := exists_toRat?_scaleDown (fullSteps n.natAbs) hx
  obtain ⟨hrest, hrest'⟩ := restPlaces_bounds n.natAbs
  obtain ⟨d, hd, hle'⟩ := exists_toRat?_div_tenPower hc hrest hrest'
  refine ⟨d, ?_, hle'.trans ?_⟩
  · rwa [scale10, if_neg (by simp [beq_zero_eq_false hx ha]; omega), if_neg (by omega)]
  · rw [pow_add, ← div_div, mul_div_assoc 2 |a|]
    gcongr

/-- A shift to the right makes no double larger. -/
theorem exists_toRat?_scale10_of_nonpos {n : Int} (hn : n ≤ 0) (hx : toRat? x = some a) :
    ∃ c, toRat? (scale10 x n) = some c ∧ |c| ≤ |a| := by
  rcases eq_or_ne a 0 with rfl | ha
  · exact ⟨0, toRat?_scale10_of_zero hx n, le_rfl⟩
  rcases hn.eq_or_lt with rfl | hneg
  · rw [scale10_zero_places]
    exact ⟨a, hx, le_rfl⟩
  · obtain ⟨c, hc, hle⟩ := exists_toRat?_scale10_of_neg hneg hx ha
    refine ⟨c, hc, hle.trans ?_⟩
    have hplaces : 1 ≤ 21 * fullSteps n.natAbs + restPlaces n.natAbs :=
      (restPlaces_bounds n.natAbs).1.trans (Nat.le_add_left _ _)
    have hten : (10 : Rat) ≤ 10 ^ (21 * fullSteps n.natAbs + restPlaces n.natAbs) := by
      simpa using pow_le_pow_right₀ (by norm_num : (1 : Rat) ≤ 10) hplaces
    rw [div_le_iff₀ (by positivity), mul_comm]
    exact mul_le_mul_of_nonneg_left (by linarith) (abs_nonneg a)

theorem HasSign.scaleUp {σ : UnpackedFloat.Sign} (steps : Nat) (hx : HasSign σ x) :
    HasSign σ (scaleUp steps x) := by
  induction steps generalizing x with
  | zero => exact hx
  | succ steps ih => exact ih (hx.mul (toRat?_tenPower le_rfl) (by positivity))

theorem HasSign.scaleDown {σ : UnpackedFloat.Sign} (steps : Nat) (hx : HasSign σ x) :
    HasSign σ (scaleDown steps x) := by
  induction steps generalizing x with
  | zero => exact hx
  | succ steps ih => exact ih (hx.div (toRat?_tenPower le_rfl) (by positivity))

/-- A shift keeps the sign, wherever it leads. -/
theorem HasSign.scale10 {σ : UnpackedFloat.Sign} (hx : HasSign σ x) (n : Int) :
    HasSign σ (scale10 x n) := by
  have hten := toRat?_tenPower (restPlaces_bounds n.natAbs).2
  rw [Binary64.scale10]
  split
  · exact hx
  · split
    · exact (hx.scaleUp _).mul hten (by positivity)
    · exact (hx.scaleDown _).div hten (by positivity)

theorem IsNumber.scale10 (hx : IsNumber x) (n : Int) : IsNumber (scale10 x n) := by
  obtain ⟨σ, hsign⟩ := isNumber_iff.mp hx
  exact isNumber_iff.mpr ⟨σ, hsign.scale10 n⟩

/-! ## Shifts beyond the range -/

theorem toRat?_eq_none (hx : toRat? x = none) :
    x.toModel.unpack = .notANumber ∨ ∃ s, x.toModel.unpack = .infinity s := by
  rw [toRat?_eq] at hx
  cases hu : x.toModel.unpack with
  | notANumber => exact .inl rfl
  | infinity s => exact .inr ⟨s, rfl⟩
  | zero s | finite s m e hm => simp [hu, unpackedValue] at hx

/-- What is infinite or no number stays so in a product. -/
theorem toRat?_mul_eq_none (hx : toRat? x = none) : toRat? (x * y) = none := by
  have hmul : x * y = Float.ofModel (Float.Model.pack
      (UnpackedFloat.mul .binary64 x.toModel.unpack y.toModel.unpack)) := rfl
  rw [hmul]
  rcases toRat?_eq_none hx with hu | ⟨s, hu⟩
  · rw [hu]
    exact toRat?_ofModel_pack (u := .notANumber) trivial
  · rw [hu]
    cases y.toModel.unpack with
    | notANumber | zero => exact toRat?_ofModel_pack (u := .notANumber) trivial
    | infinity | finite => exact toRat?_ofModel_pack (u := .infinity _) trivial

/-- What is infinite or no number stays so in a quotient. -/
theorem toRat?_div_eq_none (hx : toRat? x = none) : toRat? (x / y) = none := by
  have hdiv : x / y = Float.ofModel (Float.Model.pack
      (UnpackedFloat.div .binary64 x.toModel.unpack y.toModel.unpack)) := rfl
  rw [hdiv]
  rcases toRat?_eq_none hx with hu | ⟨s, hu⟩
  · rw [hu]
    exact toRat?_ofModel_pack (u := .notANumber) trivial
  · rw [hu]
    cases y.toModel.unpack with
    | notANumber | infinity => exact toRat?_ofModel_pack (u := .notANumber) trivial
    | zero | finite => exact toRat?_ofModel_pack (u := .infinity _) trivial

/-- What is infinite or no number stays so in a sum. -/
theorem toRat?_add_eq_none (hx : toRat? x = none) : toRat? (x + y) = none := by
  have hadd : x + y = Float.ofModel (Float.Model.pack
      (UnpackedFloat.add .binary64 x.toModel.unpack y.toModel.unpack)) := rfl
  rw [hadd]
  rcases toRat?_eq_none hx with hu | ⟨s, hu⟩
  · rw [hu]
    exact toRat?_ofModel_pack (u := .notANumber) trivial
  · rw [hu]
    cases y.toModel.unpack with
    | notANumber => exact toRat?_ofModel_pack (u := .notANumber) trivial
    | infinity t =>
      cases s <;> cases t
      · exact toRat?_ofModel_pack (u := .infinity _) trivial
      · exact toRat?_ofModel_pack (u := .notANumber) trivial
      · exact toRat?_ofModel_pack (u := .notANumber) trivial
      · exact toRat?_ofModel_pack (u := .infinity _) trivial
    | zero | finite => exact toRat?_ofModel_pack (u := .infinity _) trivial

theorem isFinite_eq_false (hx : toRat? x = none) : Scalar.isFinite x = false := by
  rw [Bool.eq_false_iff]
  intro hfinite
  obtain ⟨a, ha⟩ := isFinite_iff.mp hfinite
  rw [hx] at ha
  cases ha

/-- What is not finite equals no finite double. -/
theorem beq_of_not_finite (hx : toRat? x = none) (hy : toRat? y = some b) : (x == y) = false := by
  have hbeq : (x == y) = (x.toModel.unpack.compare y.toModel.unpack == some .eq) := rfl
  rw [hbeq]
  rcases exists_unpack_of_toRat? hy with ⟨t, ht, -⟩ | ⟨t, k, e, hk, ht, -, -⟩ <;>
    rcases toRat?_eq_none hx with hu | ⟨s, hu⟩
  all_goals rw [hu, ht]
  all_goals first | rfl | cases s <;> rfl

theorem not_finite_beq (hx : toRat? x = some a) (hy : toRat? y = none) : (x == y) = false := by
  have hbeq : (x == y) = (x.toModel.unpack.compare y.toModel.unpack == some .eq) := rfl
  rw [hbeq]
  rcases exists_unpack_of_toRat? hx with ⟨t, ht, -⟩ | ⟨t, k, e, hk, ht, -, -⟩ <;>
    rcases toRat?_eq_none hy with hu | ⟨s, hu⟩
  all_goals rw [hu, ht]
  all_goals cases t <;> first | rfl | cases s <;> rfl

/-- Infinite doubles are equal if their signs are. -/
theorem HasSign.beq_iff {σ τ : UnpackedFloat.Sign} (hx : HasSign σ x) (hy : HasSign τ y)
    (hx' : toRat? x = none) (hy' : toRat? y = none) : (x == y) = true ↔ σ = τ := by
  have hbeq : (x == y) = (x.toModel.unpack.compare y.toModel.unpack == some .eq) := rfl
  have hinfinite {z : Float} {ρ : UnpackedFloat.Sign} (hz : HasSign ρ z) (hz' : toRat? z = none) :
      z.toModel.unpack = .infinity ρ := by
    rcases toRat?_eq_none hz' with hu | ⟨s, hu⟩
    · rw [HasSign, hu] at hz
      cases hz
    · rw [HasSign, hu] at hz
      rw [hu, Option.some.inj hz]
  rw [hbeq, hinfinite hx hx', hinfinite hy hy']
  cases σ <;> cases τ <;>
    first | exact iff_of_true rfl rfl | exact iff_of_false (by decide) (by simp)

/-- What is not finite counts as equal to what it equals. -/
theorem close_of_not_finite (h : toRat? x = none ∨ toRat? y = none) : close x y = (x == y) := by
  have hfinite : (x.isFinite && y.isFinite) = false := by
    rcases h with hx | hy
    · have hinfinite : x.isFinite = false := isFinite_eq_false hx
      rw [hinfinite, Bool.false_and]
    · have hinfinite : y.isFinite = false := isFinite_eq_false hy
      rw [hinfinite, Bool.and_false]
  rw [close, hfinite, Bool.false_and, Bool.or_false]

/-- A double of at least a certain size, if it is finite at all. -/
def AtLeast (bound : Rat) (x : Float) : Prop :=
  ∀ a, toRat? x = some a → bound ≤ |a|

theorem AtLeast.mul_tenPower {bound : Rat} {k : Nat} (h : AtLeast bound x) (hbound : 1 ≤ bound)
    (hk : k ≤ 22) : AtLeast (bound * (10 ^ k * (1 - 2⁻¹ ^ 53))) (x * tenPower k) := by
  intro c hc
  have hten := toRat?_tenPower hk
  cases hx : toRat? x with
  | none => rw [toRat?_mul_eq_none hx] at hc; cases hc
  | some a =>
    have hlow : bound * 10 ^ k ≤ |a * 10 ^ k| := by
      rw [abs_mul, abs_of_pos (by positivity : (0 : Rat) < 10 ^ k)]
      exact mul_le_mul_of_nonneg_right (h a hx) (by positivity)
    have hone : (1 : Rat) ≤ bound * 10 ^ k :=
      one_le_mul_of_one_le_of_one_le hbound (one_le_pow₀ (by norm_num))
    rw [toRat?_mul_eq hx hten] at hc
    obtain ⟨rfl, -⟩ := finite_eq_some.mp hc
    have hleast : (2 : Rat) ^ (-1022 : Int) ≤ 1 :=
      zpow_le_one_of_nonpos₀ (by norm_num) (by norm_num)
    rw [nearestDouble_of_le (hleast.trans (hone.trans hlow)), abs_toDouble]
    have herror := (abs_le.mp (abs_toDouble_sub_le |a * 10 ^ k|)).1
    rw [abs_abs] at herror
    calc bound * (10 ^ k * (1 - 2⁻¹ ^ 53)) = bound * 10 ^ k * (1 - 2⁻¹ ^ 53) := by ring
      _ ≤ |a * 10 ^ k| * (1 - 2⁻¹ ^ 53) := mul_le_mul_of_nonneg_right hlow (by norm_num)
      _ ≤ toDouble |a * 10 ^ k| := by linarith

theorem AtLeast.scaleUp {bound : Rat} (steps : Nat) (h : AtLeast bound x) (hbound : 1 ≤ bound) :
    AtLeast (bound * (10 ^ 22 * (1 - 2⁻¹ ^ 53)) ^ steps) (scaleUp steps x) := by
  induction steps generalizing x bound with
  | zero => simpa [Binary64.scaleUp] using h
  | succ steps ih =>
    have hstep : (1 : Rat) ≤ 10 ^ 22 * (1 - 2⁻¹ ^ 53) := by norm_num
    have hnext := ih (h.mul_tenPower (k := 22) hbound le_rfl)
      (one_le_mul_of_one_le_of_one_le hbound hstep)
    rw [pow_succ', ← mul_assoc]
    exact hnext

/-- The end of the range, in decimal. -/
theorem two_pow_1024_le : (2 : Rat) ^ (1024 : Int) ≤ 10 ^ 309 * (9 / 10) := by
  have hpart : (2 : Rat) ^ 256 ≤ 1.16 * 10 ^ 77 := by norm_num
  calc (2 : Rat) ^ (1024 : Int) = (2 ^ 256) ^ 4 := by
        rw [← pow_mul]
        exact zpow_natCast 2 1024
    _ ≤ (1.16 * 10 ^ 77) ^ 4 := pow_le_pow_left₀ (by norm_num) hpart 4
    _ = 10 ^ 308 * 1.16 ^ 4 := by
        rw [mul_pow, ← pow_mul, mul_comm]
    _ ≤ 10 ^ 308 * 9 := mul_le_mul_of_nonneg_left (by norm_num) (by positivity)
    _ = 10 ^ 309 * (9 / 10) := by
        rw [pow_succ 10 308, mul_assoc]
        congr 1
        norm_num

/-- What a shift to the left leaves at least. -/
theorem atLeast_scale10 {n : Int} (hx : toRat? x = some a) (ha : 1 ≤ |a|) (hn : 0 < n) :
    AtLeast (|a| * (10 ^ 22 * (1 - 2⁻¹ ^ 53)) ^ fullSteps n.natAbs *
      (10 ^ restPlaces n.natAbs * (1 - 2⁻¹ ^ 53))) (scale10 x n) := by
  have hne := beq_zero_eq_false hx (abs_pos.mp (zero_lt_one.trans_le ha))
  have hstep : (1 : Rat) ≤ 10 ^ 22 * (1 - 2⁻¹ ^ 53) := by norm_num
  have hleast : AtLeast |a| x := by
    intro b hb
    rw [hx] at hb
    cases hb
    exact le_rfl
  rw [scale10, if_neg (by simp [hne]; omega), if_pos (by omega)]
  exact (hleast.scaleUp (fullSteps n.natAbs) ha).mul_tenPower
    (one_le_mul_of_one_le_of_one_le ha (one_le_pow₀ hstep)) (restPlaces_bounds n.natAbs).2

/-- Nothing finite is at least as large as the end of the range. -/
theorem AtLeast.toRat?_eq_none {bound : Rat} (h : AtLeast bound x)
    (hbound : (2 : Rat) ^ (1024 : Int) ≤ bound) : toRat? x = none := by
  cases hx : toRat? x with
  | none => rfl
  | some a => exact absurd (abs_lt_of_toRat? hx) (not_lt.mpr (hbound.trans (h a hx)))

/-- A shift to the left by more than `308` places leaves the range. -/
theorem toRat?_scale10_of_large {n : Int} (hx : toRat? x = some a) (ha : 1 ≤ |a|) (hn : 309 ≤ n) :
    toRat? (scale10 x n) = none := by
  have hplaces : 309 ≤ 22 * fullSteps n.natAbs + restPlaces n.natAbs := by
    rw [fullSteps, restPlaces, exactTenPower, enoughSteps]
    omega
  have hsteps : fullSteps n.natAbs ≤ 32 := min_le_right _ _
  refine (atLeast_scale10 hx ha (by omega)).toRat?_eq_none ?_
  generalize fullSteps n.natAbs = steps at hsteps hplaces ⊢
  generalize restPlaces n.natAbs = rest at hplaces ⊢
  calc (2 : Rat) ^ (1024 : Int) ≤ 10 ^ 309 * (9 / 10) := two_pow_1024_le
    _ ≤ 10 ^ 309 * (1 - 2⁻¹ ^ 53) ^ 33 :=
        mul_le_mul_of_nonneg_left (by norm_num) (by positivity)
    _ ≤ 10 ^ (22 * steps + rest) * (1 - 2⁻¹ ^ 53) ^ (steps + 1) :=
        mul_le_mul (pow_le_pow_right₀ (by norm_num) hplaces)
          (pow_le_pow_of_le_one (by norm_num) (by norm_num) (by omega))
          (pow_nonneg (by norm_num) 33) (by positivity)
    _ = 1 * (10 ^ 22 * (1 - 2⁻¹ ^ 53)) ^ steps * (10 ^ rest * (1 - 2⁻¹ ^ 53)) := by
        rw [mul_pow, pow_add, pow_mul, pow_succ]
        ring
    _ ≤ |a| * (10 ^ 22 * (1 - 2⁻¹ ^ 53)) ^ steps * (10 ^ rest * (1 - 2⁻¹ ^ 53)) := by
        have hfactor : (0 : Rat) ≤ 10 ^ 22 * (1 - 2⁻¹ ^ 53) := by norm_num
        have hfactor' : (0 : Rat) ≤ 10 ^ rest * (1 - 2⁻¹ ^ 53) :=
          mul_nonneg (by positivity) (by norm_num)
        gcongr

/-- A shift of a few digits to the right by `345` places or more leaves nothing. -/
theorem toRat?_scale10_of_small {n : Int} (hx : toRat? x = some a) (ha : |a| ≤ 10)
    (hn : n ≤ -345) : toRat? (scale10 x n) = some 0 := by
  rcases eq_or_ne a 0 with rfl | ha0
  · exact toRat?_scale10_of_zero hx n
  · obtain ⟨c, hc, hle⟩ := exists_toRat?_scale10_of_neg (hn.trans_lt (by decide)) hx ha0
    have hplaces : 330 ≤ 21 * fullSteps n.natAbs + restPlaces n.natAbs := by
      rw [fullSteps, restPlaces, exactTenPower, enoughSteps]
      omega
    suffices hzero : c = 0 by rwa [hzero] at hc
    by_contra hc0
    have hleast := (two_pow_le_abs_of_toRat? hc hc0).trans hle
    rw [le_div_iff₀ (by positivity)] at hleast
    refine absurd (hleast.trans (by linarith : 2 * |a| ≤ 20)) (not_le.mpr ?_)
    calc (20 : Rat) < 2 ^ (-1074 : Int) * (2 ^ (1024 : Int) * 10 ^ 21) := by
          rw [← mul_assoc, ← zpow_add₀ (by norm_num)]
          norm_num
      _ ≤ 2 ^ (-1074 : Int) * (10 ^ 309 * (9 / 10) * 10 ^ 21) := by
          gcongr
          exact two_pow_1024_le
      _ ≤ 2 ^ (-1074 : Int) * 10 ^ 330 := by
          refine mul_le_mul_of_nonneg_left ?_ (by positivity)
          rw [mul_right_comm, ← pow_add]
          exact mul_le_of_le_one_right (by positivity) (by norm_num)
      _ ≤ 2 ^ (-1074 : Int) * 10 ^ (21 * fullSteps n.natAbs + restPlaces n.natAbs) :=
          mul_le_mul_of_nonneg_left (pow_le_pow_right₀ (by norm_num) hplaces) (by positivity)

/-! ## Shifts within the range -/

/-- A positive number well inside the range of the doubles: twice and half of it are normal. -/
structure Inner (r : Rat) : Prop where
  least_le : (2 : Rat) ^ (-1021 : Int) ≤ r
  le_greatest : r ≤ (2 : Rat) ^ (1022 : Int)

theorem Inner.pos {r : Rat} (h : Inner r) : 0 < r :=
  h.least_le.trans_lt' (by positivity)

theorem Inner.lt_two_pow_1023 {r : Rat} (h : Inner r) : r < 2 ^ (1023 : Int) :=
  h.le_greatest.trans_lt (zpow_lt_zpow_right₀ (by norm_num) (by norm_num))

/-- Between two inner numbers there are only inner numbers. -/
theorem Inner.between {r s t : Rat} (hr : Inner r) (ht : Inner t) (hrs : r ≤ s) (hst : s ≤ t) :
    Inner s :=
  ⟨hr.least_le.trans hrs, hst.trans ht.le_greatest⟩

/-- The inner range, in decimal. -/
theorem Inner.of_decimal {r : Rat} (hlow : (10 : Rat) ^ (-306 : Int) ≤ r)
    (hhigh : r ≤ 2 * 10 ^ (307 : Int)) : Inner r := by
  have hpart : (8.9 * 10 ^ 43 : Rat) ≤ 2 ^ 146 := by norm_num
  have hgreatest : 2 * (10 : Rat) ^ (307 : Int) ≤ 2 ^ (1022 : Int) := by
    calc 2 * (10 : Rat) ^ (307 : Int) = (10 ^ 43) ^ 7 * (2 * 10 ^ 6) := by
          rw [mul_left_comm, ← pow_mul, ← pow_add]
          exact congrArg (2 * ·) (zpow_natCast 10 307)
      _ ≤ (10 ^ 43) ^ 7 * 8.9 ^ 7 := mul_le_mul_of_nonneg_left (by norm_num) (by positivity)
      _ = (8.9 * 10 ^ 43) ^ 7 := by rw [mul_pow 8.9, mul_comm]
      _ ≤ (2 ^ 146) ^ 7 := pow_le_pow_left₀ (by norm_num) hpart 7
      _ = 2 ^ (1022 : Int) := by
          rw [← pow_mul]
          exact (zpow_natCast 2 1022).symm
  refine ⟨le_trans ?_ hlow, hhigh.trans hgreatest⟩
  have hlarge : (10 : Rat) ^ (306 : Int) ≤ 2 ^ (1021 : Int) := by
    have hten : (10 : Rat) ^ (307 : Int) = 10 ^ (306 : Int) * 10 := zpow_add_one₀ (by norm_num) 306
    have htwo : (2 : Rat) ^ (1022 : Int) = 2 ^ (1021 : Int) * 2 := zpow_add_one₀ (by norm_num) 1021
    have hpos : (0 : Rat) < 10 ^ (306 : Int) := by positivity
    rw [hten, htwo] at hgreatest
    generalize (10 : Rat) ^ (306 : Int) = p at hgreatest hpos ⊢
    generalize (2 : Rat) ^ (1021 : Int) = q at hgreatest ⊢
    linarith
  rw [zpow_neg, zpow_neg]
  exact inv_anti₀ (by positivity) hlarge

/-- Numbers between powers of ten of the range are inner. -/
theorem Inner.of_zpow {r : Rat} {e f : Int} (hlow : 10 ^ e ≤ r) (hhigh : r ≤ 10 ^ f)
    (he : -306 ≤ e) (hf : f ≤ 307) : Inner r := by
  have hten : (1 : Rat) ≤ 10 := by norm_num
  refine .of_decimal ((zpow_le_zpow_right₀ hten he).trans hlow) ?_
  exact (hhigh.trans (zpow_le_zpow_right₀ hten hf)).trans
    (le_mul_of_one_le_left (by positivity) (by norm_num))

theorem Within.mono {k l : Nat} (h : Within k a b) (hkl : k ≤ l) : Within l a b := by
  have hpower : (1 - 2⁻¹ ^ 53 : Rat) ^ l ≤ (1 - 2⁻¹ ^ 53) ^ k :=
    pow_le_pow_of_le_one (by norm_num) (by norm_num) hkl
  exact ⟨h.pos, h.pos', (mul_le_mul_of_nonneg_left hpower h.pos'.le).trans h.le,
    (mul_le_mul_of_nonneg_left hpower h.pos.le).trans h.le'⟩

theorem Within.add {k : Nat} {c d : Rat} (h : Within k a b) (h' : Within k c d) :
    Within k (a + c) (b + d) where
  pos := add_pos h.pos h'.pos
  pos' := add_pos h.pos' h'.pos'
  le := by
    rw [add_mul]
    exact add_le_add h.le h'.le
  le' := by
    rw [add_mul]
    exact add_le_add h.le' h'.le'

theorem Within.mul_within {k l : Nat} {c d : Rat} (h : Within k a b) (h' : Within l c d) :
    Within (k + l) (a * c) (b * d) where
  pos := mul_pos h.pos h'.pos
  pos' := mul_pos h.pos' h'.pos'
  le := by
    have hpower : (0 : Rat) < (1 - 2⁻¹ ^ 53) ^ l := pow_pos (by norm_num) l
    rw [pow_add, mul_mul_mul_comm]
    exact mul_le_mul h.le h'.le (mul_pos h'.pos' hpower).le h.pos.le
  le' := by
    have hpower : (0 : Rat) < (1 - 2⁻¹ ^ 53) ^ l := pow_pos (by norm_num) l
    rw [pow_add, mul_mul_mul_comm]
    exact mul_le_mul h.le' h'.le' (mul_pos h'.pos hpower).le h.pos'.le

/-- After a few hundred roundings most of a number is left. -/
theorem Within.bounds {k : Nat} (h : Within k a b) (hk : k ≤ 400) :
    b * (1 - 1 / 10 ^ 13) ≤ a ∧ a * (1 - 1 / 10 ^ 13) ≤ b := by
  have hpower : (1 - 2⁻¹ ^ 53 : Rat) ^ 400 ≤ (1 - 2⁻¹ ^ 53) ^ k :=
    pow_le_pow_of_le_one (by norm_num) (by norm_num) hk
  have hbound : (1 - 1 / 10 ^ 13 : Rat) ≤ (1 - 2⁻¹ ^ 53) ^ 400 := by
    have hbernoulli := one_add_mul_le_pow (by norm_num : (-2 : Rat) ≤ -2⁻¹ ^ 53) 400
    rw [← sub_eq_add_neg] at hbernoulli
    exact hbernoulli.trans' (by norm_num)
  exact ⟨(mul_le_mul_of_nonneg_left (hbound.trans hpower) h.pos'.le).trans h.le,
    (mul_le_mul_of_nonneg_left (hbound.trans hpower) h.pos.le).trans h.le'⟩

/-- Few enough roundings leave an inner number in the normal range. -/
theorem Within.normal {k : Nat} {r : Rat} (h : Within k a r) (hk : k ≤ 400) (hr : Inner r) :
    Normal a := by
  obtain ⟨hlow, hhigh⟩ := h.bounds hk
  have hpos := hr.pos
  rw [one_div] at hlow hhigh
  constructor
  · have hhalf : (2 : Rat) ^ (-1022 : Int) * 2 = 2 ^ (-1021 : Int) :=
      (zpow_add_one₀ (by norm_num) (-1022)).symm
    have hleast := hr.least_le
    rw [← hhalf] at hleast
    rw [abs_of_pos h.pos]
    generalize (2 : Rat) ^ (-1022 : Int) = least at hleast ⊢
    norm_num at hlow
    linarith
  · have hdouble : (2 : Rat) ^ (1022 : Int) * 2 = 2 ^ (1023 : Int) :=
      (zpow_add_one₀ (by norm_num) 1022).symm
    have hgreatest := hr.le_greatest
    rw [abs_of_pos h.pos, ← hdouble]
    generalize (2 : Rat) ^ (1022 : Int) = greatest at hgreatest ⊢
    norm_num at hhigh
    linarith

theorem abs_le_abs_mul_ten_pow (r : Rat) (k : Nat) : |r| ≤ |r * 10 ^ k| := by
  rw [abs_mul, abs_of_pos (by positivity : (0 : Rat) < 10 ^ k)]
  exact le_mul_of_one_le_right (abs_nonneg r) (one_le_pow₀ (by norm_num))

theorem abs_div_ten_pow_le (r : Rat) (k : Nat) : |r / 10 ^ k| ≤ |r| := by
  rw [abs_div, abs_of_pos (by positivity : (0 : Rat) < 10 ^ k)]
  exact div_le_self (abs_nonneg r) (one_le_pow₀ (by norm_num))

theorem Normal.of_abs {r : Rat} (h : Normal |r|) : Normal r := by
  obtain ⟨hleast, hgreatest⟩ := h
  rw [abs_abs] at hleast hgreatest
  exact ⟨hleast, hgreatest⟩

/-- Two inner numbers are not far apart. -/
theorem natAbs_le_of_inner {r : Rat} {n : Int} (hr : Inner r) (hlast : Inner (r * 10 ^ n)) :
    n.natAbs ≤ 700 := by
  by_contra hfar
  obtain ⟨k, hk⟩ : ∃ k, n.natAbs = 701 + k := Nat.exists_eq_add_of_le (by omega)
  have hpower : (2 : Rat) ^ (2103 : Int) ≤ 10 ^ n.natAbs := by
    calc (2 : Rat) ^ (2103 : Int) = (2 ^ 3) ^ 701 := by
          rw [← pow_mul]
          exact zpow_natCast 2 2103
      _ ≤ 10 ^ 701 := pow_le_pow_left₀ (by norm_num) (by norm_num) 701
      _ ≤ 10 ^ n.natAbs := pow_le_pow_right₀ (by norm_num) (by omega)
  have hwide : (2 : Rat) ^ (1022 : Int) < 2 ^ (-1021 : Int) * 2 ^ (2103 : Int) := by
    rw [← zpow_add₀ (by norm_num)]
    exact zpow_lt_zpow_right₀ (by norm_num) (by norm_num)
  have hproduct {p q : Rat} (hp : Inner p) (hq : q ≤ 2 ^ (1022 : Int))
      (h : q = p * 10 ^ n.natAbs) : False := by
    refine absurd (hwide.trans_le ?_) (not_lt.mpr hq)
    rw [h]
    exact mul_le_mul hp.least_le hpower (by positivity) hp.pos.le
  rcases Int.natAbs_eq n with hn | hn
  · refine hproduct hr hlast.le_greatest ?_
    rw [← zpow_natCast, ← hn]
  · refine hproduct hlast hr.le_greatest ?_
    rw [← zpow_natCast, mul_assoc, ← zpow_add₀ (by norm_num)]
    rw [show n + n.natAbs = 0 by omega, zpow_zero, mul_one]

/-! ## Close doubles -/

/-- Every double is a multiple of the least subnormal one. -/
theorem exists_units (hx : toRat? x = some a) : ∃ i : Int, a = i * 2 ^ (-1074 : Int) := by
  rcases exists_unpack_of_toRat? hx with ⟨-, -, rfl⟩ | ⟨σ, m, e, -, -, hcanonical, rfl⟩
  · exact ⟨0, by simp⟩
  · obtain ⟨j, rfl⟩ : ∃ j : Nat, e = -1074 + j :=
      ⟨(e + 1074).toNat, by have := hcanonical.least_le; omega⟩
    refine ⟨σ.apply m * 2 ^ j, ?_⟩
    rw [Int.cast_mul, Int.cast_pow, Int.cast_ofNat, mul_assoc, ← zpow_natCast,
      ← zpow_add₀ (by norm_num), add_comm]

/-- Two doubles less than the least subnormal one apart are equal. -/
theorem eq_of_abs_sub_lt (hx : toRat? x = some a) (hy : toRat? y = some b)
    (h : |a - b| < 2 ^ (-1074 : Int)) : a = b := by
  obtain ⟨i, rfl⟩ := exists_units hx
  obtain ⟨j, rfl⟩ := exists_units hy
  have hunit : (0 : Rat) < 2 ^ (-1074 : Int) := by positivity
  rw [← sub_mul, abs_mul, abs_of_pos hunit, mul_lt_iff_lt_one_left hunit] at h
  have hless : |i - j| < 1 := by exact_mod_cast h
  rw [Int.abs_lt_one_iff, sub_eq_zero] at hless
  rw [hless]

/-- The relative distance at which two doubles count as equal. -/
theorem exists_toRat?_tolerance :
    ∃ t, toRat? 1e-12 = some t ∧ 9 / 10 ^ 13 ≤ t ∧ t ≤ 11 / 10 ^ 13 := by
  have hvalue : (toRat? 1e-12).any (fun t ↦ 9 / 10 ^ 13 ≤ t ∧ t ≤ 11 / 10 ^ 13) = true := by
    decide +kernel
  cases ht : toRat? 1e-12 with
  | none => simp [ht] at hvalue
  | some t =>
    rw [ht] at hvalue
    exact ⟨t, rfl, of_decide_eq_true hvalue⟩

/-- Doubles that differ by a small part of one of them count as equal. -/
theorem close_of_abs_sub_le (ha : toRat? x = some a) (hb : toRat? y = some b)
    (hleast : (2 : Rat) ^ (-1030 : Int) ≤ |b|) (h : |b - a| ≤ |b| * (22 / 10 ^ 14)) :
    close x y = true := by
  obtain ⟨t, ht, htlow, hthigh⟩ := exists_toRat?_tolerance
  have htpos : 0 < t := htlow.trans_lt' (by norm_num)
  have hsplit : (2 : Rat) ^ (1024 : Int) = 2 ^ (1023 : Int) * 2 := zpow_add_one₀ (by norm_num) 1023
  have hgreatest := abs_lt_of_toRat? hb
  rw [hsplit] at hgreatest
  have hfinite {r : Rat} (hr : |r| ≤ |b| * (1 / 10)) :
      finite (nearestDouble r) = some (nearestDouble r) := by
    refine finite_nearestDouble_of_lt ?_
    generalize (2 : Rat) ^ (1023 : Int) = greatest at hgreatest ⊢
    linarith [abs_nonneg b]
  have hsize : |t * b| = t * |b| := by rw [abs_mul, abs_of_pos htpos]
  have hdifference : toRat? (y - x).abs = some |nearestDouble (b - a)| := by
    refine toRat?_abs ?_
    rw [toRat?_sub_eq hb ha, hfinite]
    exact h.trans (mul_le_mul_of_nonneg_left (by norm_num) (abs_nonneg b))
  have htolerance : toRat? (1e-12 * y).abs = some |nearestDouble (t * b)| := by
    refine toRat?_abs ?_
    rw [toRat?_mul_eq ht hb, hfinite]
    rw [hsize, mul_comm]
    exact mul_le_mul_of_nonneg_left (hthigh.trans (by norm_num)) (abs_nonneg b)
  have hlarge : t * |b| ≤ 2 * |nearestDouble (t * b)| := by
    rw [← hsize]
    refine abs_le_nearestDouble ?_
    have hunits : (2 : Rat) ^ (-1030 : Int) = 2 ^ (44 : Int) * 2 ^ (-1074 : Int) :=
      zpow_add₀ (by norm_num) 44 (-1074)
    have hunit : (0 : Rat) < 2 ^ (-1074 : Int) := by positivity
    rw [hunits] at hleast
    have hproduct := mul_le_mul htlow hleast (by positivity) htpos.le
    rw [hsize]
    generalize (2 : Rat) ^ (-1074 : Int) = unit at hproduct hunit ⊢
    norm_num at hproduct
    linarith
  have hle : (y - x).abs ≤ (1e-12 * y).abs := by
    rw [le_iff hdifference htolerance]
    have hsmall := abs_nearestDouble_le (b - a)
    have hproduct := mul_le_mul_of_nonneg_right htlow (abs_nonneg b)
    norm_num at h hproduct
    linarith [abs_nonneg b]
  simp [close, isFinite_of_toRat? ha, isFinite_of_toRat? hb, hle]

/-- Doubles of one sign whose sizes few roundings have parted from one number count as equal. -/
theorem close_of_within {k : Nat} {r : Rat} {s : UnpackedFloat.Sign}
    (ha : toRat? x = some (unit s * a)) (hb : toRat? y = some (unit s * b))
    (hwithin : Within k a r) (hwithin' : Within k b r) (hk : k ≤ 400) (hr : Inner r) :
    close x y = true := by
  obtain ⟨hlow, hhigh⟩ := hwithin.bounds hk
  obtain ⟨hlow', hhigh'⟩ := hwithin'.bounds hk
  have hsize : |unit s * b| = b := by
    rw [abs_mul, abs_unit, one_mul, abs_of_pos hwithin'.pos]
  refine close_of_abs_sub_le ha hb ?_ ?_
  · have hnormal := (hwithin'.normal hk hr).least_le
    rw [abs_of_pos hwithin'.pos] at hnormal
    rw [hsize]
    exact (zpow_le_zpow_right₀ (by norm_num) (by norm_num)).trans hnormal
  · have hpos := hwithin'.pos
    rw [← mul_sub, abs_mul, abs_unit, one_mul, hsize, abs_le]
    norm_num at hlow hhigh hlow' hhigh' ⊢
    constructor <;> linarith

/-- Only a finite size is at most as large as a finite double. -/
theorem exists_toRat?_of_abs_le (h : x.abs ≤ y) (hy : toRat? y = some b) :
    ∃ a, toRat? x = some a := by
  have habs : x.abs = Float.ofModel (Float.Model.pack x.toModel.unpack.abs) := rfl
  cases hx : toRat? x with
  | some a => exact ⟨a, rfl⟩
  | none =>
    rw [le_iff_compare, habs] at h
    rcases toRat?_eq_none hx with hu | ⟨s, hu⟩
    · rw [hu, unpack_toModel_ofModel_pack (u := .abs .notANumber) trivial] at h
      cases h
    · rw [hu, unpack_toModel_ofModel_pack (u := .abs (.infinity s)) trivial] at h
      rcases exists_unpack_of_toRat? hy with ⟨t, ht, -⟩ | ⟨t, m, e, hm, ht, -, -⟩ <;>
        rw [ht] at h <;> cases h

/-- The distance that is tolerated beside a double. -/
theorem exists_toRat?_tolerated (hy : toRat? y = some b) :
    ∃ w, toRat? (1e-12 * y).abs = some w ∧ w ≤ |b| * (22 / 10 ^ 13) := by
  obtain ⟨t, ht, htlow, hthigh⟩ := exists_toRat?_tolerance
  have hsmall : |nearestDouble (t * b)| ≤ |b| * (22 / 10 ^ 13) := by
    have ht0 : 0 < t := htlow.trans_lt' (by norm_num)
    calc |nearestDouble (t * b)| ≤ 2 * |t * b| := abs_nearestDouble_le _
      _ = |b| * (2 * t) := by rw [abs_mul, abs_of_pos ht0]; ring
      _ ≤ |b| * (22 / 10 ^ 13) :=
          mul_le_mul_of_nonneg_left (by norm_num at hthigh ⊢; linarith) (abs_nonneg b)
  have hrange : |nearestDouble (t * b)| < 2 ^ (1024 : Int) :=
    (hsmall.trans (mul_le_of_le_one_right (abs_nonneg b) (by norm_num))).trans_lt
      (abs_lt_of_toRat? hy)
  refine ⟨_, toRat?_abs ?_, hsmall⟩
  rw [toRat?_mul_eq ht hy]
  exact finite_eq_some.mpr ⟨rfl, hrange⟩

/-- Doubles that count as equal differ by a small part of one of them. -/
theorem abs_sub_le_of_close (hx : toRat? x = some a) (hy : toRat? y = some b)
    (h : close x y = true) :
    |b - a| ≤ |a| * (1 / 10 ^ 11) ∨ |b - a| ≤ |b| * (1 / 10 ^ 11) := by
  have htolerated {z : Float} {c : Rat} (hz : toRat? z = some c)
      (hle : (y - x).abs ≤ (1e-12 * z).abs) : |b - a| ≤ |c| * (1 / 10 ^ 11) := by
    obtain ⟨w, hw, hsmall⟩ := exists_toRat?_tolerated hz
    obtain ⟨d, hd⟩ := exists_toRat?_of_abs_le hle hw
    rw [le_iff (toRat?_abs hd) hw] at hle
    obtain ⟨rfl, -⟩ := finite_eq_some.mp ((toRat?_sub_eq hy hx).symm.trans hd)
    rcases lt_or_ge |b - a| (2 ^ (-1074 : Int)) with hless | hunit
    · rw [eq_of_abs_sub_lt hy hx hless, sub_self, abs_zero]
      positivity
    · have hdouble := abs_le_nearestDouble hunit
      norm_num at hsmall ⊢
      linarith [abs_nonneg c]
  rw [close, Bool.or_eq_true, Bool.and_eq_true, Bool.or_eq_true, decide_eq_true_iff,
    decide_eq_true_iff] at h
  rcases h with hequal | ⟨-, hle | hle⟩
  · rw [(beq_iff hx hy).mp hequal, sub_self, abs_zero]
    exact .inl (by positivity)
  · exact .inr (htolerated hy hle)
  · exact .inl (htolerated hx hle)

/-- Zero counts as equal to zero alone. -/
theorem close_zero (hx : toRat? x = some 0) (hy : toRat? y = some b) (hb : b ≠ 0) :
    close x y = false := by
  rw [Bool.eq_false_iff]
  intro h
  have hpos := abs_pos.mpr hb
  rcases abs_sub_le_of_close hx hy h with hle | hle
  · rw [sub_zero, abs_zero, zero_mul] at hle
    exact absurd hle hpos.not_ge
  · rw [sub_zero] at hle
    norm_num at hle
    linarith

/-! ## Doubles a few roundings off -/

/-- A double that `k` roundings may have parted from a number, which keep its sign. -/
def Approx (k : Nat) (x : Float) (r : Rat) : Prop :=
  ∃ a, toRat? x = some a ∧ 0 < a * r ∧ Within k |a| |r|

theorem toDouble_mul_pos {r : Rat} (h : 0 < a * r) : 0 < toDouble a * r := by
  rcases pos_and_pos_or_neg_and_neg_of_mul_pos h with ⟨ha, hr⟩ | ⟨ha, hr⟩
  · exact mul_pos (toDouble_pos ha) hr
  · refine mul_pos_of_neg_of_neg ?_ hr
    have hneg := toDouble_pos (neg_pos.mpr ha)
    rw [toDouble_neg] at hneg
    exact neg_pos.mp hneg

namespace Approx

variable {k l : Nat} {r t : Rat}

/-- One more rounding. -/
theorem of_toDouble (hx : toRat? x = some (toDouble a)) (hsign : 0 < a * r)
    (h : Within k |a| |r|) : Approx (k + 1) x r := by
  refine ⟨toDouble a, hx, toDouble_mul_pos hsign, ?_⟩
  rw [abs_toDouble]
  exact h.toDouble

theorem mul (hx : Approx k x r) (hy : Approx l y t) (hkl : k + l ≤ 400)
    (hinner : Inner |r * t|) : Approx (k + l + 1) (x * y) (r * t) := by
  obtain ⟨a, ha, hsign, hwithin⟩ := hx
  obtain ⟨b, hb, hsign', hwithin'⟩ := hy
  have hproduct := hwithin.mul_within hwithin'
  rw [← abs_mul, ← abs_mul] at hproduct
  refine of_toDouble (toRat?_mul ha hb (.inr (hproduct.normal hkl hinner).of_abs)) ?_ hproduct
  rw [mul_mul_mul_comm]
  exact mul_pos hsign hsign'

theorem div (hx : Approx k x r) (hy : Approx l y t) (hkl : k + l ≤ 400)
    (hinner : Inner |r / t|) : Approx (k + l + 1) (x / y) (r / t) := by
  obtain ⟨a, ha, hsign, hwithin⟩ := hx
  obtain ⟨b, hb, hsign', hwithin'⟩ := hy
  have hquotient := hwithin.div hwithin'
  rw [← abs_div, ← abs_div] at hquotient
  refine of_toDouble (toRat?_div ha hb (left_ne_zero_of_mul hsign'.ne')
    (.inr (hquotient.normal hkl hinner).of_abs)) ?_ hquotient
  rw [div_mul_div_comm]
  exact div_pos hsign hsign'

/-- Sums of positive numbers. -/
theorem add (hx : Approx k x r) (hy : Approx k y t) (hk : k ≤ 400) (hr : 0 < r) (ht : 0 < t)
    (hinner : Inner (r + t)) : Approx (k + 1) (x + y) (r + t) := by
  obtain ⟨a, ha, hsign, hwithin⟩ := hx
  obtain ⟨b, hb, hsign', hwithin'⟩ := hy
  have ha0 : 0 < a := pos_of_mul_pos_left hsign hr.le
  have hb0 : 0 < b := pos_of_mul_pos_left hsign' ht.le
  rw [abs_of_pos ha0, abs_of_pos hr] at hwithin
  rw [abs_of_pos hb0, abs_of_pos ht] at hwithin'
  have hsum := hwithin.add hwithin'
  have hnormal := hsum.normal hk hinner
  have hless := finite_nearestDouble_of_lt hnormal.lt_greatest
  rw [nearestDouble_of_le hnormal.least_le] at hless
  refine of_toDouble (a := a + b) ?_ (mul_pos (add_pos ha0 hb0) hinner.pos) ?_
  · rw [toRat?_add_eq ha hb, nearestDouble_of_le hnormal.least_le, hless]
  · rwa [abs_of_pos (add_pos ha0 hb0), abs_of_pos hinner.pos]

theorem mono (h : Approx k x r) (hkl : k ≤ l) : Approx l x r := by
  obtain ⟨a, ha, hsign, hwithin⟩ := h
  exact ⟨a, ha, hsign, hwithin.mono hkl⟩

theorem of_toRat? (hx : toRat? x = some a) (ha : a ≠ 0) : Approx 0 x a :=
  ⟨a, hx, mul_self_pos.mpr ha, .refl (abs_pos.mpr ha)⟩

theorem tenPower {j : Nat} (hj : j ≤ 22) : Approx 0 (tenPower j) (10 ^ j) :=
  of_toRat? (toRat?_tenPower hj) (by positivity)

theorem scaleUp (steps : Nat) (h : Approx k x r) (hk : k + steps ≤ 400) (hr : Inner |r|)
    (hlast : Inner |r * 10 ^ (22 * steps)|) :
    Approx (k + steps) (scaleUp steps x) (r * 10 ^ (22 * steps)) := by
  induction steps generalizing x r k with
  | zero => simpa [Binary64.scaleUp] using h
  | succ steps ih =>
    have hsplit : r * 10 ^ (22 * (steps + 1)) = r * 10 ^ 22 * 10 ^ (22 * steps) := by
      rw [mul_add_one, Nat.add_comm, pow_add, mul_assoc]
    rw [hsplit] at hlast ⊢
    have hnext : Inner |r * 10 ^ 22| :=
      hr.between hlast (abs_le_abs_mul_ten_pow r 22) (abs_le_abs_mul_ten_pow _ _)
    have hstep := ih (h.mul (tenPower le_rfl) (by omega) hnext) (by omega) hnext hlast
    exact hstep.mono (by omega)

theorem scaleDown (steps : Nat) (h : Approx k x r) (hk : k + steps ≤ 400) (hr : Inner |r|)
    (hlast : Inner |r / 10 ^ (22 * steps)|) :
    Approx (k + steps) (scaleDown steps x) (r / 10 ^ (22 * steps)) := by
  induction steps generalizing x r k with
  | zero => simpa [Binary64.scaleDown] using h
  | succ steps ih =>
    have hsplit : r / 10 ^ (22 * (steps + 1)) = r / 10 ^ 22 / 10 ^ (22 * steps) := by
      rw [mul_add_one, Nat.add_comm, pow_add, div_div]
    rw [hsplit] at hlast ⊢
    have hnext : Inner |r / 10 ^ 22| :=
      hlast.between hr (abs_div_ten_pow_le _ _) (abs_div_ten_pow_le r 22)
    have hstep := ih (h.div (tenPower le_rfl) (by omega) hnext) (by omega) hnext hlast
    exact hstep.mono (by omega)

/-- A shift within the range adds few roundings. -/
theorem scale10 {n : Int} (h : Approx k x r) (hk : k ≤ 300) (hr : Inner |r|)
    (hlast : Inner |r * 10 ^ n|) : Approx (k + 33) (scale10 x n) (r * 10 ^ n) := by
  have hne : (x == 0) = false := by
    obtain ⟨a, ha, hsign, -⟩ := h
    exact beq_zero_eq_false ha (left_ne_zero_of_mul hsign.ne')
  rcases eq_or_ne n 0 with rfl | hn
  · rw [scale10_zero_places, zpow_zero, mul_one]
    exact h.mono (by omega)
  have hfar : n.natAbs ≤ 700 := by
    rw [abs_mul, abs_of_pos (by positivity : (0 : Rat) < 10 ^ n)] at hlast
    exact natAbs_le_of_inner hr hlast
  obtain ⟨hrest, hrest'⟩ := restPlaces_bounds n.natAbs
  have hplaces : n.natAbs = 22 * fullSteps n.natAbs + restPlaces n.natAbs := by
    rw [fullSteps, restPlaces, exactTenPower, enoughSteps]
    omega
  have hsteps : fullSteps n.natAbs ≤ 32 := min_le_right _ _
  rw [Binary64.scale10, if_neg (by simp [hne, hn])]
  generalize fullSteps n.natAbs = steps at hplaces hsteps ⊢
  generalize restPlaces n.natAbs = rest at hplaces hrest hrest' ⊢
  split
  · next hpos =>
    have hpower : r * 10 ^ n = r * 10 ^ (22 * steps) * 10 ^ rest := by
      rw [show n = ((22 * steps + rest : Nat) : Int) by omega, zpow_natCast, pow_add, mul_assoc]
    rw [hpower] at hlast ⊢
    have hfull : Inner |r * 10 ^ (22 * steps)| :=
      hr.between hlast (abs_le_abs_mul_ten_pow _ _) (abs_le_abs_mul_ten_pow _ _)
    exact ((h.scaleUp steps (by omega) hr hfull).mul (tenPower hrest') (by omega) hlast).mono
      (by omega)
  · next hneg =>
    have hpower : r * 10 ^ n = r / 10 ^ (22 * steps) / 10 ^ rest := by
      rw [show n = -((22 * steps + rest : Nat) : Int) by omega, zpow_neg, zpow_natCast, pow_add,
        div_div, div_eq_mul_inv]
    rw [hpower] at hlast ⊢
    have hfull : Inner |r / 10 ^ (22 * steps)| :=
      hlast.between hr (abs_div_ten_pow_le _ _) (abs_div_ten_pow_le _ _)
    exact ((h.scaleDown steps (by omega) hr hfull).div (tenPower hrest') (by omega) hlast).mono
      (by omega)

theorem neg (h : Approx k x r) : Approx k (-x) (-r) := by
  obtain ⟨a, ha, hsign, hwithin⟩ := h
  exact ⟨-a, toRat?_neg ha, by rwa [neg_mul_neg], by rwa [abs_neg, abs_neg]⟩

/-- Doubles that few roundings have parted from one number count as equal. -/
theorem close (hx : Approx k x r) (hy : Approx k y r) (hk : k ≤ 400) (hr : Inner |r|) :
    Binary64.close x y = true := by
  obtain ⟨a, ha, hsign, hwithin⟩ := hx
  obtain ⟨b, hb, hsign', hwithin'⟩ := hy
  obtain ⟨s, hs⟩ : ∃ s, ∀ c, 0 < c * r → c = unit s * |c| := by
    rcases lt_or_gt_of_ne (abs_pos.mp hr.pos) with hneg | hpos
    · refine ⟨.negative, fun c hc ↦ ?_⟩
      rw [show unit .negative = -1 from rfl, abs_of_neg (neg_of_mul_pos_left hc hneg.le)]
      ring
    · refine ⟨.positive, fun c hc ↦ ?_⟩
      rw [show unit .positive = 1 from rfl, abs_of_pos (pos_of_mul_pos_left hc hpos.le), one_mul]
  rw [hs a hsign] at ha
  rw [hs b hsign'] at hb
  exact close_of_within ha hb hwithin hwithin' hk hr

end Approx

/-! ## The decimal exponent -/

/-- The decimal exponent of a double is right up to two places. -/
theorem ilog10_bounds (hx : toRat? x = some a) (ha : a ≠ 0) :
    (10 : Rat) ^ (ilog10 x - 2) ≤ |a| ∧ |a| < 10 ^ (ilog10 x + 2) := by
  obtain ⟨negative, num, den, hreading, hquotient⟩ := reading_of_toRat? hx
  have hpos : (0 : Rat) < num / den := hquotient ▸ abs_pos.mpr ha
  have hnum : 0 < num := Nat.pos_of_ne_zero (by rintro rfl; simp at hpos)
  have hden : 0 < den := Nat.pos_of_ne_zero (by rintro rfl; simp at hpos)
  obtain ⟨hlow, hhigh⟩ := Decimal.orderOf_bounds hnum hden
  rw [hquotient] at hlow hhigh
  have hnear : Decimal.orderOf num den - 1 ≤ ilog10 x ∧ ilog10 x ≤ Decimal.orderOf num den + 2 := by
    simp only [ilog10, hreading, if_neg hnum.ne']
    have hfloor := logFloor_cases num den
    split
    · omega
    · split <;> omega
  constructor
  · exact (zpow_le_zpow_right₀ (by norm_num) (by omega)).trans hlow
  · exact hhigh.trans_le (zpow_le_zpow_right₀ (by norm_num) (by omega))

/-- A shift by the decimal exponent leaves a few digits before or behind the point. -/
theorem Approx.digits {k : Nat} {r : Rat} (h : Approx k x r) (hk : k ≤ 300) (hr : Inner |r|) :
    Approx (k + 33) (Binary64.scale10 x (-ilog10 x)) (r * 10 ^ (-ilog10 x)) ∧
      10 ^ (-3 : Int) ≤ |r * 10 ^ (-ilog10 x)| ∧ |r * 10 ^ (-ilog10 x)| ≤ 10 ^ (3 : Int) := by
  have hbounds : 10 ^ (-3 : Int) ≤ |r * 10 ^ (-ilog10 x)| ∧
      |r * 10 ^ (-ilog10 x)| ≤ 10 ^ (3 : Int) := by
    obtain ⟨a, ha, hsign, hwithin⟩ := h
    obtain ⟨hlow, hhigh⟩ := ilog10_bounds ha (left_ne_zero_of_mul hsign.ne')
    obtain ⟨hnear, hnear'⟩ := hwithin.bounds (by omega)
    have hpower : (0 : Rat) < 10 ^ ilog10 x := by positivity
    rw [zpow_sub₀ (by norm_num), div_le_iff₀ (by norm_num)] at hlow
    rw [zpow_add₀ (by norm_num)] at hhigh
    rw [abs_mul, abs_of_pos (by positivity : (0 : Rat) < 10 ^ (-ilog10 x)), zpow_neg _ (ilog10 x),
      ← div_eq_mul_inv, le_div_iff₀ hpower, div_le_iff₀ hpower]
    norm_num at hlow hhigh hnear hnear' ⊢
    constructor <;> linarith
  exact ⟨h.scale10 hk hr (.of_zpow hbounds.1 hbounds.2 (by decide) (by decide)), hbounds⟩

/-- The shifted product of two numbers with a few digits before or behind the point. -/
theorem Approx.mul_scale10 {k l : Nat} {n : Int} {r t : Rat} (hx : Approx k x r) (hy : Approx l y t)
    (hkl : k + l ≤ 299) (hr : 10 ^ (-3 : Int) ≤ |r|) (hr' : |r| ≤ 10 ^ (3 : Int))
    (ht : 10 ^ (-3 : Int) ≤ |t|) (ht' : |t| ≤ 10 ^ (3 : Int)) (hlast : Inner |r * t * 10 ^ n|) :
    Approx (k + l + 34) (Binary64.scale10 (x * y) n) (r * t * 10 ^ n) := by
  have hproduct : Inner |r * t| := by
    rw [abs_mul]
    refine .of_zpow (e := -3 + -3) (f := 3 + 3) ?_ ?_ (by decide) (by decide)
    · rw [zpow_add₀ (by norm_num)]
      exact mul_le_mul hr ht (by positivity) (abs_nonneg r)
    · rw [zpow_add₀ (by norm_num)]
      exact mul_le_mul hr' ht' (abs_nonneg t) (by positivity)
  exact ((hx.mul hy (by omega) hproduct).scale10 (by omega) hproduct hlast).mono (by omega)

end Binary64
end Mensura
