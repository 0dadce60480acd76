import Mensura.Proofs.Binary64.Shift

/-!
# Shifts compared

A shift by one place more differs from the shift in its last step alone, or is that shift with one
step added (`scale10_succ`, `scale10_neg_succ`).  So what rounding has done to a number on one side
of a power of ten shows on the other side.

* `le_ten_of_scale10_lt_one`: what a shift to the left leaves below one is at most ten with one
  place more; `lt_ten_of_scale10_lt_one` is sharper, for shifts to the right.
* `approx_scale10`: a shift rounds once for every twenty-two places, wherever in the range the
  double is.
* `Signed.scale10`: a shift keeps the sign and does not look at it.
-/

set_option autoImplicit false

open Float.Model.UnpackedFloat

namespace Mensura
namespace Binary64

variable {x y : Float} {a b s t : Rat}

/-! ## Rounding below one and ten -/

theorem one_le_nearestDouble {r : Rat} (h : 1 ≤ r) : 1 ≤ nearestDouble r := by
  have hleast : (2 : Rat) ^ (-1022 : Int) ≤ 1 :=
    zpow_le_one_of_nonpos₀ (by norm_num) (by norm_num)
  rw [nearestDouble_of_le (hleast.trans (h.trans (le_abs_self r)))]
  exact one_le_toDouble h

theorem nearestDouble_lt_one {r : Rat} (h : |r| < 2 ^ (-1022 : Int)) : nearestDouble r < 1 := by
  have hhalf : (2 : Rat) ^ (-1022 : Int) ≤ 2 ^ (-1 : Int) :=
    zpow_le_zpow_right₀ (by norm_num) (by norm_num)
  have hless := h.trans_le (hhalf.trans_eq (zpow_neg_one 2))
  linarith [le_abs_self (nearestDouble r), abs_nearestDouble_le r]

/-- A double from one on is not crossed. -/
theorem nearestDouble_le {r : Rat} (hrb : r ≤ b) (hb : 1 ≤ b) (hdouble : toDouble b = b) :
    nearestDouble r ≤ b := by
  rcases lt_or_ge |r| (2 ^ (-1022 : Int)) with hsmall | hlarge
  · exact (nearestDouble_lt_one hsmall).le.trans hb
  · rw [nearestDouble_of_le hlarge]
    rcases lt_trichotomy r 0 with hr | rfl | hr
    · have hneg := toDouble_pos (neg_pos.mpr hr)
      rw [toDouble_neg] at hneg
      linarith
    · rw [toDouble_zero]
      linarith
    · exact toDouble_le hr hrb hdouble

/-- A double below another one stays below it if both are scaled and rounded. -/
theorem nearestDouble_mul_lt {c : Rat} (hab : a < b) (hda : toDouble a = a) (hdb : toDouble b = b)
    (hc : 0 < c) (hone : 1 ≤ b * c) : nearestDouble (a * c) < b * c := by
  rcases lt_or_ge |a * c| (2 ^ (-1022 : Int)) with hsmall | hlarge
  · exact (nearestDouble_lt_one hsmall).trans_le hone
  · rw [nearestDouble_of_le hlarge]
    rcases lt_trichotomy a 0 with ha | rfl | ha
    · have hneg := toDouble_pos (mul_pos (neg_pos.mpr ha) hc)
      rw [neg_mul, toDouble_neg] at hneg
      linarith
    · rw [zero_mul, toDouble_zero]
      linarith
    · exact toDouble_mul_lt ha hab hda hdb hc

/-! ## One place further -/

theorem scaleUp_succ (steps : Nat) (x : Float) :
    scaleUp (steps + 1) x = scaleUp steps x * tenPower exactTenPower := by
  induction steps generalizing x with
  | zero => rfl
  | succ steps ih => rw [scaleUp, ih, scaleUp]

theorem scaleDown_succ (steps : Nat) (x : Float) :
    scaleDown (steps + 1) x = scaleDown steps x / tenPower exactTenPower := by
  induction steps generalizing x with
  | zero => rfl
  | succ steps ih => rw [scaleDown, ih, scaleDown]

theorem scale10_of_pos (hx : (x == 0) = false) {n : Nat} (hn : 0 < n) :
    scale10 x n = scaleUp (fullSteps n) x * tenPower (restPlaces n) := by
  rw [scale10, if_neg (by simp [hx]; omega), if_pos (by omega), Int.natAbs_natCast]

theorem scale10_of_neg (hx : (x == 0) = false) {n : Nat} (hn : 0 < n) :
    scale10 x (-n) = scaleDown (fullSteps n) x / tenPower (restPlaces n) := by
  rw [scale10, if_neg (by simp [hx]; omega), if_neg (by omega), Int.natAbs_neg, Int.natAbs_natCast]

/-- One more place changes the last step of a shift, or adds a step. -/
theorem fullSteps_succ {n : Nat} (hn : 0 < n) (hfar : n ≤ 700) :
    (restPlaces n < 22 ∧ fullSteps (n + 1) = fullSteps n ∧ restPlaces (n + 1) = restPlaces n + 1) ∨
      (restPlaces n = 22 ∧ fullSteps (n + 1) = fullSteps n + 1 ∧ restPlaces (n + 1) = 1) := by
  simp only [fullSteps, restPlaces, exactTenPower, enoughSteps]
  omega

theorem scale10_succ (hx : (x == 0) = false) {n : Nat} (hfar : n ≤ 700) :
    (∃ y k, k < 22 ∧ scale10 x n = y * tenPower k ∧
      scale10 x (n + 1 : Nat) = y * tenPower (k + 1)) ∨
      scale10 x (n + 1 : Nat) = scale10 x n * tenPower 1 := by
  rw [scale10_of_pos hx (Nat.zero_lt_succ n)]
  rcases Nat.eq_zero_or_pos n with rfl | hn
  · exact .inr rfl
  rw [scale10_of_pos hx hn]
  rcases fullSteps_succ hn hfar with ⟨hrest, hfull, hnext⟩ | ⟨hrest, hfull, hnext⟩
  · exact .inl ⟨_, _, hrest, rfl, by rw [hfull, hnext]⟩
  · exact .inr (by rw [hfull, hnext, hrest, scaleUp_succ]; rfl)

theorem scale10_neg_succ (hx : (x == 0) = false) {n : Nat} (hfar : n ≤ 700) :
    (∃ y k, k < 22 ∧ scale10 x (-n) = y / tenPower k ∧
      scale10 x (-(n + 1 : Nat)) = y / tenPower (k + 1)) ∨
      scale10 x (-(n + 1 : Nat)) = scale10 x (-n) / tenPower 1 := by
  rw [scale10_of_neg hx (Nat.zero_lt_succ n)]
  rcases Nat.eq_zero_or_pos n with rfl | hn
  · exact .inr rfl
  rw [scale10_of_neg hx hn]
  rcases fullSteps_succ hn hfar with ⟨hrest, hfull, hnext⟩ | ⟨hrest, hfull, hnext⟩
  · exact .inl ⟨_, _, hrest, rfl, by rw [hfull, hnext]⟩
  · exact .inr (by rw [hfull, hnext, hrest, scaleDown_succ]; rfl)

theorem exists_factor (h : toRat? (x * y) = some s) : ∃ a, toRat? x = some a := by
  cases hx : toRat? x with
  | none => rw [toRat?_mul_eq_none hx] at h; cases h
  | some a => exact ⟨a, rfl⟩

theorem exists_dividend (h : toRat? (x / y) = some s) : ∃ a, toRat? x = some a := by
  cases hx : toRat? x with
  | none => rw [toRat?_div_eq_none hx] at h; cases h
  | some a => exact ⟨a, rfl⟩

/-- The value of a product with a power of ten. -/
theorem eq_of_mul_tenPower {k : Nat} (hx : toRat? x = some a) (hk : k ≤ 22)
    (h : toRat? (x * tenPower k) = some s) : s = nearestDouble (a * 10 ^ k) := by
  rw [toRat?_mul_eq hx (toRat?_tenPower hk)] at h
  exact (finite_eq_some.mp h).1.symm

theorem eq_of_div_tenPower {k : Nat} (hx : toRat? x = some a) (hk : k ≤ 22)
    (h : toRat? (x / tenPower k) = some s) : s = nearestDouble (a / 10 ^ k) := by
  rw [toRat?_div_eq hx (toRat?_tenPower hk) (by positivity)] at h
  exact (finite_eq_some.mp h).1.symm

/-- A number below one, shifted to the left by one place more. -/
theorem le_ten_of_scale10_lt_one (hx : (x == 0) = false) {n : Nat} (hfar : n ≤ 700)
    (hs : toRat? (scale10 x n) = some s) (ht : toRat? (scale10 x (n + 1 : Nat)) = some t)
    (h : s < 1) : t ≤ 10 := by
  rcases scale10_succ hx hfar with ⟨y, k, hk, hnow, hnext⟩ | hnext
  · -- One multiplication each: before rounding, the second product is ten times the first.
    rw [hnow] at hs
    rw [hnext] at ht
    obtain ⟨b, hb⟩ := exists_factor hs
    have hless : b * 10 ^ k < 1 := by
      by_contra hge
      rw [eq_of_mul_tenPower hb hk.le hs] at h
      exact absurd h (not_lt.mpr (one_le_nearestDouble (not_lt.mp hge)))
    rw [eq_of_mul_tenPower hb hk ht]
    refine nearestDouble_le ?_ (by norm_num) (by simpa using toDouble_ten_pow (k := 1) (by decide))
    rw [pow_succ, ← mul_assoc]
    linarith
  · rw [hnext] at ht
    rw [eq_of_mul_tenPower hs (by decide) ht, pow_one]
    have hlt := nearestDouble_mul_lt (c := 10) h (toDouble_of_toRat? hs)
      (by simpa using toDouble_ten_pow (k := 0) (by decide)) (by norm_num) (by norm_num)
    linarith

/-- A number that a shift to the right leaves below one: with one place less it stays below ten. -/
theorem lt_ten_of_scale10_lt_one (hx : (x == 0) = false) {n : Nat} (hfar : n ≤ 700)
    (hs : toRat? (scale10 x (-(n + 1 : Nat))) = some s) (ht : toRat? (scale10 x (-n)) = some t)
    (h : s < 1) : t < 10 := by
  have hquotient {r : Rat} {k : Nat} (hr : nearestDouble (r / 10 ^ k) < 1) : r < 10 ^ k := by
    by_contra hge
    rw [not_lt, ← one_le_div (by positivity)] at hge
    exact absurd hr (not_lt.mpr (one_le_nearestDouble hge))
  rcases scale10_neg_succ hx hfar with ⟨y, k, hk, hnow, hnext⟩ | hnext
  · rw [hnext] at hs
    rw [hnow] at ht
    obtain ⟨b, hb⟩ := exists_dividend hs
    rw [eq_of_div_tenPower hb hk hs] at h
    rw [eq_of_div_tenPower hb hk.le ht, div_eq_mul_inv]
    have hten : (10 : Rat) ^ (k + 1) * (10 ^ k)⁻¹ = 10 := by
      rw [pow_succ, mul_comm, inv_mul_cancel_left₀ (by positivity)]
    have hlt := nearestDouble_mul_lt (hquotient h) (toDouble_of_toRat? hb) (toDouble_ten_pow hk)
      (by positivity : (0 : Rat) < (10 ^ k)⁻¹) (by rw [hten]; norm_num)
    rwa [hten] at hlt
  · rw [hnext] at hs
    rw [eq_of_div_tenPower ht (by decide) hs] at h
    simpa using hquotient h

/-! ## How far a shift is off -/

/-- The number of roundings of a shift. -/
def roundings (n : Int) : Nat :=
  (n.natAbs + 21) / 22

theorem roundings_eq {n : Nat} (hn : 0 < n) (hfar : n ≤ 700) :
    fullSteps n + 1 = roundings n ∧ n = 22 * fullSteps n + restPlaces n ∧ fullSteps n ≤ 32 := by
  simp only [roundings, fullSteps, restPlaces, exactTenPower, enoughSteps, Int.natAbs_natCast]
  omega

/-- Whatever double the steps to the left start from, behind the first of them they are inside the
range. -/
theorem approx_scaleUp (hx : toRat? x = some a) (ha : a ≠ 0) {steps : Nat} (hsteps : steps ≤ 32)
    (hlast : |a * 10 ^ (22 * steps)| ≤ 2 ^ (1022 : Int)) :
    Approx steps (scaleUp steps x) (a * 10 ^ (22 * steps)) := by
  have hexact := Approx.of_toRat? hx ha
  cases steps with
  | zero => simpa [scaleUp] using hexact
  | succ steps =>
    have hleast : (2 : Rat) ^ (-1021 : Int) ≤ |a * 10 ^ 22| := by
      rw [abs_mul, abs_of_pos (by positivity : (0 : Rat) < 10 ^ 22)]
      calc (2 : Rat) ^ (-1021 : Int) = 2 ^ (-1074 : Int) * 2 ^ (53 : Int) :=
            zpow_add₀ (by norm_num) (-1074) 53
        _ ≤ |a| * 10 ^ 22 :=
            mul_le_mul (two_pow_le_abs_of_toRat? hx ha) (by norm_num) (by positivity) (abs_nonneg a)
    have hsplit : a * 10 ^ (22 * (steps + 1)) = a * 10 ^ 22 * 10 ^ (22 * steps) := by
      rw [mul_add_one, Nat.add_comm, pow_add, mul_assoc]
    rw [hsplit] at hlast ⊢
    have hmore := abs_le_abs_mul_ten_pow (a * 10 ^ 22) (22 * steps)
    have hfirst : Inner |a * 10 ^ 22| := ⟨hleast, hmore.trans hlast⟩
    have hstep := (hexact.mul (.tenPower (j := 22) le_rfl) (by decide) hfirst).scaleUp steps
      (by omega) hfirst ⟨hleast.trans hmore, hlast⟩
    exact hstep.mono (by omega)

/-- The same for steps to the right. -/
theorem approx_scaleDown (hx : toRat? x = some a) (ha : a ≠ 0) {steps : Nat} (hsteps : steps ≤ 32)
    (hlast : 2 ^ (-1021 : Int) ≤ |a / 10 ^ (22 * steps)|) :
    Approx steps (scaleDown steps x) (a / 10 ^ (22 * steps)) := by
  have hexact := Approx.of_toRat? hx ha
  cases steps with
  | zero => simpa [scaleDown] using hexact
  | succ steps =>
    have hgreatest : |a / 10 ^ 22| ≤ 2 ^ (1022 : Int) := by
      rw [abs_div, abs_of_pos (by positivity : (0 : Rat) < 10 ^ 22), div_le_iff₀ (by positivity)]
      calc |a| ≤ 2 ^ (1024 : Int) := (abs_lt_of_toRat? hx).le
        _ = 2 ^ (1022 : Int) * 2 ^ (2 : Int) := zpow_add₀ (by norm_num) 1022 2
        _ ≤ 2 ^ (1022 : Int) * 10 ^ 22 := mul_le_mul_of_nonneg_left (by norm_num) (by positivity)
    have hsplit : a / 10 ^ (22 * (steps + 1)) = a / 10 ^ 22 / 10 ^ (22 * steps) := by
      rw [mul_add_one, Nat.add_comm, pow_add, div_div]
    rw [hsplit] at hlast ⊢
    have hless := abs_div_ten_pow_le (a / 10 ^ 22) (22 * steps)
    have hfirst : Inner |a / 10 ^ 22| := ⟨hlast.trans hless, hgreatest⟩
    have hstep := (hexact.div (.tenPower (j := 22) le_rfl) (by decide) hfirst).scaleDown steps
      (by omega) hfirst ⟨hlast, hless.trans hgreatest⟩
    exact hstep.mono (by omega)

/-- A shift of a double, even of a subnormal one, that ends well inside the range. -/
theorem approx_scale10 (hx : toRat? x = some a) (ha : a ≠ 0) {n : Int} (hfar : n.natAbs ≤ 700)
    (hlast : Inner |a * 10 ^ n|) : Approx (roundings n) (scale10 x n) (a * 10 ^ n) := by
  have hne := beq_zero_eq_false hx ha
  rcases lt_trichotomy n 0 with hn | rfl | hn
  · obtain ⟨m, rfl⟩ : ∃ m : Nat, n = -m := ⟨n.natAbs, by omega⟩
    rw [Int.natAbs_neg, Int.natAbs_natCast] at hfar
    have hpos : 0 < m := by omega
    obtain ⟨hcount, hplaces, hsteps⟩ := roundings_eq hpos hfar
    obtain ⟨-, hrest⟩ := restPlaces_bounds m
    have hpower : a * 10 ^ (-m : Int) = a / 10 ^ (22 * fullSteps m) / 10 ^ restPlaces m := by
      rw [zpow_neg, zpow_natCast, div_div, ← pow_add, ← hplaces, div_eq_mul_inv]
    rw [hpower] at hlast
    have hless := abs_div_ten_pow_le (a / 10 ^ (22 * fullSteps m)) (restPlaces m)
    have hstep := (approx_scaleDown hx ha hsteps (hlast.least_le.trans hless)).div
      (.tenPower hrest) (by omega) hlast
    rw [scale10_of_neg hne hpos, hpower, roundings, Int.natAbs_neg, ← roundings, ← hcount]
    exact hstep
  · rw [scale10_zero_places, zpow_zero, mul_one]
    exact .of_toRat? hx ha
  · obtain ⟨m, rfl⟩ := Int.eq_ofNat_of_zero_le hn.le
    rw [Int.natAbs_natCast] at hfar
    have hpos : 0 < m := by omega
    obtain ⟨hcount, hplaces, hsteps⟩ := roundings_eq hpos hfar
    obtain ⟨-, hrest⟩ := restPlaces_bounds m
    have hpower : a * 10 ^ (m : Int) = a * 10 ^ (22 * fullSteps m) * 10 ^ restPlaces m := by
      rw [zpow_natCast, mul_assoc, ← pow_add, ← hplaces]
    rw [hpower] at hlast
    have hmore := abs_le_abs_mul_ten_pow (a * 10 ^ (22 * fullSteps m)) (restPlaces m)
    have hstep := (approx_scaleUp hx ha hsteps (hmore.trans hlast.le_greatest)).mul
      (.tenPower hrest) (by omega) hlast
    rw [scale10_of_pos hne hpos, hpower, ← hcount]
    exact hstep

/-! ## Signs -/

/-- The value of `y` is that of `x`, with a sign; or neither of them is finite. -/
def Signed (σ : Sign) (x y : Float) : Prop :=
  toRat? y = (toRat? x).map (unit σ * ·)

theorem exists_unit (h : |a| = |b|) : ∃ σ, b = unit σ * a := by
  rcases abs_eq_abs.mp h with rfl | rfl
  · exact ⟨.positive, (one_mul a).symm⟩
  · exact ⟨.negative, by rw [show unit .negative = -1 from rfl, neg_one_mul, neg_neg]⟩

theorem finite_unit_mul (σ : Sign) (r : Rat) :
    finite (unit σ * r) = (finite r).map (unit σ * ·) := by
  rw [finite, finite, abs_mul, abs_unit, one_mul]
  split <;> rfl

namespace Signed

variable {σ : Sign}

theorem of_eq (hx : toRat? x = some a) (hy : toRat? y = some (unit σ * a)) : Signed σ x y := by
  rw [Signed, hx, hy, Option.map_some]

theorem value (h : Signed σ x y) (hx : toRat? x = some a) : toRat? y = some (unit σ * a) := by
  rw [h, hx, Option.map_some]

theorem mul_tenPower (h : Signed σ x y) {k : Nat} (hk : k ≤ 22) :
    Signed σ (x * tenPower k) (y * tenPower k) := by
  have hten := toRat?_tenPower hk
  rw [Signed]
  cases hx : toRat? x with
  | none => rw [toRat?_mul_eq_none hx, toRat?_mul_eq_none (by rw [h, hx]; rfl), Option.map_none]
  | some a =>
    rw [toRat?_mul_eq hx hten, toRat?_mul_eq (h.value hx) hten, mul_assoc, nearestDouble_unit_mul,
      finite_unit_mul]

theorem div_tenPower (h : Signed σ x y) {k : Nat} (hk : k ≤ 22) :
    Signed σ (x / tenPower k) (y / tenPower k) := by
  have hten := toRat?_tenPower hk
  have hne : (10 : Rat) ^ k ≠ 0 := by positivity
  rw [Signed]
  cases hx : toRat? x with
  | none => rw [toRat?_div_eq_none hx, toRat?_div_eq_none (by rw [h, hx]; rfl), Option.map_none]
  | some a =>
    rw [toRat?_div_eq hx hten hne, toRat?_div_eq (h.value hx) hten hne, mul_div_assoc,
      nearestDouble_unit_mul, finite_unit_mul]

theorem scaleUp (h : Signed σ x y) (steps : Nat) :
    Signed σ (scaleUp steps x) (scaleUp steps y) := by
  induction steps generalizing x y with
  | zero => exact h
  | succ steps ih => exact ih (h.mul_tenPower le_rfl)

theorem scaleDown (h : Signed σ x y) (steps : Nat) :
    Signed σ (scaleDown steps x) (scaleDown steps y) := by
  induction steps generalizing x y with
  | zero => exact h
  | succ steps ih => exact ih (h.div_tenPower le_rfl)

/-- A shift keeps the sign, and does not look at it. -/
theorem scale10 (h : Signed σ x y) (hx : toRat? x = some a) (n : Int) :
    Signed σ (scale10 x n) (scale10 y n) := by
  have hrest := (restPlaces_bounds n.natAbs).2
  have hzero : (x == 0) = (y == 0) := by
    rw [Bool.eq_iff_iff, beq_iff hx toRat?_zero, beq_iff (h.value hx) toRat?_zero, mul_eq_zero,
      or_iff_right (unit_ne_zero σ)]
  rw [Binary64.scale10, Binary64.scale10, hzero]
  split
  · exact h
  · split
    · exact (h.scaleUp _).mul_tenPower hrest
    · exact (h.scaleDown _).div_tenPower hrest

end Signed

/-- A shift looks at the value alone. -/
theorem toRat?_scale10_congr (hx : toRat? x = some a) (hy : toRat? y = some a) (n : Int) :
    toRat? (scale10 x n) = toRat? (scale10 y n) := by
  have hsame : Signed .positive y x :=
    .of_eq hy (by rw [hx, show unit .positive = 1 from rfl, one_mul])
  rw [hsame.scale10 hy n, show unit .positive = 1 from rfl]
  simp

end Binary64
end Mensura
