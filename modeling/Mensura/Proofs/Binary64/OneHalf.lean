import Mensura.Proofs.Binary64.Shift

/-!
# One half more than a double

The sum of a double and one half is rounded itself.  To the integer below it this mostly makes no
difference: `floor_toDouble_add_half` says that the rounded sum lies between the same integers.  But
the largest double below one half is brought up to one, and from `2 ^ 52` to `2 ^ 53`, where every
double is an integer, an odd one is brought up to the next (`Misrounded`).
-/

set_option autoImplicit false

namespace Mensura
namespace Binary64

variable {x : Float} {a v : Rat}

theorem floor_eq_of_bounds {b : Rat} {k : Int} (hlow : (k : Rat) ≤ b) (hhigh : b < k + 1) :
    b.floor = k := by
  have hle := Rat.le_floor_iff.mpr hlow
  have hlt : b.floor < k + 1 := Rat.floor_lt_iff.mpr (by exact_mod_cast hhigh)
  omega

/-! ## Doubles that are integers -/

/-- A positive double is some fifty-three digits in units of its last place. -/
theorem exists_digits_mul (hd : toDouble a = a) (ha : 0 < a) :
    ∃ m : Nat, a = m * lastPlace a ∧ 2 ^ 52 ≤ m ∧ m < 2 ^ 53 := by
  have hunits : a = roundedDigits a * lastPlace a := by rw [← toDouble_of_pos ha, hd]
  refine ⟨roundedDigits a, hunits, le_roundedDigits ha.ne', ?_⟩
  exact_mod_cast lt_of_mul_lt_mul_right (hunits.symm.trans_lt (lt_mul_lastPlace ha))
    (lastPlace_pos a).le

theorem exists_lastPlace_eq {k : Int} (ha : 2 ^ (52 + k) ≤ a) :
    ∃ j : Nat, lastPlace a = 2 ^ (k + j) := by
  have hpos : 0 < a := lt_of_lt_of_le (by positivity) ha
  have hlog : 52 + k ≤ Int.log 2 |a| := by
    rw [← Int.zpow_le_iff_le_log (by norm_num) (abs_pos.mpr hpos.ne'), abs_of_pos hpos]
    exact_mod_cast ha
  obtain ⟨j, hj⟩ := Int.eq_ofNat_of_zero_le (sub_nonneg.mpr hlog)
  refine ⟨j, ?_⟩
  rw [lastPlace]
  congr 1
  omega

theorem lastPlace_le_of_lt {k : Int} (ha : 0 < a) (h : a < 2 ^ (53 + k)) : lastPlace a ≤ 2 ^ k := by
  have hlog : Int.log 2 |a| < 53 + k := by
    rw [← Int.lt_zpow_iff_log_lt (by norm_num) (abs_pos.mpr ha.ne'), abs_of_pos ha]
    exact_mod_cast h
  exact zpow_le_zpow_right₀ one_le_two (by omega)

/-- A double from `2 ^ 52` on is an integer. -/
theorem exists_natCast_of_le (hd : toDouble a = a) (ha : 2 ^ 52 ≤ a) : ∃ n : Nat, a = n := by
  obtain ⟨m, hm, -, -⟩ := exists_digits_mul hd (by linarith)
  obtain ⟨j, hj⟩ := exists_lastPlace_eq (k := 0) (by exact_mod_cast ha)
  refine ⟨m * 2 ^ j, ?_⟩
  rw [hm, hj, zero_add, zpow_natCast]
  push_cast
  rfl

/-- From `2 ^ 53` on one half is too little to make a difference. -/
theorem toDouble_add_half_of_large (hd : toDouble a = a) (ha : 2 ^ 53 ≤ a) :
    toDouble (a + 1 / 2) = a := by
  obtain ⟨m, hm, hlow, hhigh⟩ := exists_digits_mul hd (by linarith)
  obtain ⟨j, hj⟩ := exists_lastPlace_eq (k := 1) (by exact_mod_cast ha)
  have htwo : (2 : Rat) ≤ 2 ^ (1 + j : Int) := by
    simpa using zpow_le_zpow_right₀ (one_le_two (α := Rat)) (by omega : (1 : Int) ≤ 1 + j)
  rw [hj] at hm
  have hlow' : (2 ^ 52 : Rat) ≤ m := by exact_mod_cast hlow
  have hhigh' : (m : Rat) + 1 ≤ 2 ^ 53 := by exact_mod_cast hhigh
  have hnonneg : 0 ≤ 1 / 2 / (2 : Rat) ^ (1 + j : Int) := by positivity
  have hquarter : 1 / 2 / 2 ^ (1 + j : Int) ≤ (1 / 4 : Rat) := by
    rw [div_le_iff₀ (by positivity)]
    linarith
  have hsum : a + 1 / 2 = (m + 1 / 2 / 2 ^ (1 + j : Int)) * 2 ^ (1 + j : Int) := by
    rw [add_mul, ← hm, div_mul_cancel₀ _ (by positivity)]
  have hnear : |(m + 1 / 2 / 2 ^ (1 + j : Int) : Rat) - m| < 1 / 2 := by
    rw [add_sub_cancel_left, abs_of_nonneg hnonneg]
    linarith
  rw [hsum, toDouble_of_near (by linarith) (by linarith) hnear, ← hm]

/-- Between `2 ^ 52` and `2 ^ 53` the sum with one half is in the middle between two integers, and
goes to the even one. -/
theorem toDouble_natCast_add_half {m : Nat} (hm : 2 ^ 52 ≤ m) (hm' : m < 2 ^ 53) :
    toDouble (m + 1 / 2) = (m + m % 2 : Nat) := by
  have hround : Decimal.roundHalfEven (2 * m + 1) 2 = m + m % 2 := by
    rw [Decimal.roundHalfEven]
    split
    · omega
    split
    · omega
    split
    · omega
    · omega
  have hvalue : toDouble ((2 * m + 1 : Nat) / (2 : Nat) * 2 ^ (0 : Int)) = _ :=
    toDouble_of_quotient Nat.two_pos (by omega) (by omega)
  rw [hround, zpow_zero, mul_one, mul_one] at hvalue
  rw [← hvalue]
  congr 1
  push_cast
  ring

/-! ## Sums that are brought up -/

/-- The sizes that are brought up to an integer too large. -/
inductive Misrounded (a : Rat) : Prop
  | belowHalf (h : a = 1 / 2 - 2⁻¹ ^ 54)
  | odd (m : Nat) (hodd : m % 2 = 1) (hlow : 2 ^ 52 ≤ m) (hhigh : m < 2 ^ 53) (h : a = m)

/-- The largest double below one half. -/
theorem toDouble_belowHalf : toDouble (1 / 2 - 2⁻¹ ^ 54) = 1 / 2 - 2⁻¹ ^ 54 := by
  have h := toDouble_of_digits (m := 2 ^ 53 - 1) (e := -54) (by norm_num)
  norm_num at h ⊢
  exact h

theorem lastPlace_belowHalf : lastPlace (1 / 2 - 2⁻¹ ^ 54) = 2⁻¹ ^ 54 := by
  rw [lastPlace_of_digits (q := 2 ^ 53 - 1) (e := -54)]
  · norm_num
  · norm_num
  · norm_num
  · norm_num

theorem floor_belowHalf : (1 / 2 - 2⁻¹ ^ 54 : Rat).floor = 0 :=
  floor_eq_of_bounds (by norm_num) (by norm_num)

/-- There is no double between it and one half. -/
theorem half_le_of_belowHalf_lt (hd : toDouble a = a) (ha : 1 / 2 - 2⁻¹ ^ 54 < a) : 1 / 2 ≤ a := by
  have h := add_lastPlace_le (by norm_num) ha toDouble_belowHalf hd
  rwa [lastPlace_belowHalf, sub_add_cancel] at h

theorem floor_toDouble_add_half_of_misrounded (h : Misrounded a) :
    (toDouble (a + 1 / 2)).floor = a.floor + 1 := by
  rcases h with ⟨rfl⟩ | ⟨m, hodd, hlow, hhigh, rfl⟩
  · -- The sum is in the middle between `1 - 2 ^ -53` and one.
    have hvalue : toDouble ((2 ^ 54 - 1 : Nat) / (2 : Nat) * 2 ^ (-53 : Int)) = _ :=
      toDouble_of_quotient Nat.two_pos (by norm_num) (by norm_num)
    have hround : Decimal.roundHalfEven (2 ^ 54 - 1) 2 = 2 ^ 53 := by decide +kernel
    have hone : toDouble (1 / 2 - 2⁻¹ ^ 54 + 1 / 2) = 1 := by
      rw [hround] at hvalue
      norm_num at hvalue ⊢
      exact hvalue
    rw [hone, floor_belowHalf]
    rfl
  · rw [toDouble_natCast_add_half hlow hhigh, hodd]
    exact_mod_cast rfl

/-! ## Sums that stay between the same integers -/

/-- Below the largest double below one half the sum is less than one by more than its rounding can
add. -/
theorem floor_toDouble_add_half_of_small (hd : toDouble a = a) (ha : 0 ≤ a)
    (hsmall : a < 1 / 2 - 2⁻¹ ^ 54) : (toDouble (a + 1 / 2)).floor = (a + 1 / 2).floor := by
  have hgap : a * (1 + 2⁻¹ ^ 53) < 1 / 2 - 2⁻¹ ^ 54 := by
    rcases ha.eq_or_lt with rfl | hpos
    · norm_num
    · exact mul_lt_of_toDouble_lt hpos hsmall hd toDouble_belowHalf
  have herror := (abs_le.mp (abs_toDouble_sub_le_of_pos (by linarith : 0 < a + 1 / 2))).2
  have hfloor : (a + 1 / 2).floor = 0 :=
    floor_eq_of_bounds (by push_cast; linarith) (by push_cast; norm_num at hsmall; linarith)
  rw [hfloor]
  refine floor_eq_of_bounds ?_ ?_
  · exact_mod_cast (toDouble_pos (by linarith)).le
  · norm_num at hgap herror ⊢
    linarith

/-- Below `2 ^ 52` there is room for one half. -/
theorem add_half_le_of_lt (hd : toDouble a = a) (ha : a < 2 ^ 52) : a + 1 / 2 ≤ 2 ^ 52 := by
  by_contra hlarge
  have hsize : (2 ^ 52 - 1 / 2 : Rat) = (2 ^ 53 - 1 : Int) * 2 ^ (-1 : Int) := by norm_num
  have hdouble : toDouble (2 ^ 52 - 1 / 2) = 2 ^ 52 - 1 / 2 := by
    rw [hsize]
    exact toDouble_of_digits (by norm_num)
  have hplace : lastPlace (2 ^ 52 - 1 / 2) = 2 ^ (-1 : Int) :=
    lastPlace_of_digits (q := 2 ^ 53 - 1) (by norm_num) (by norm_num) (by norm_num)
  have hstep := add_lastPlace_le (by norm_num) (by linarith : (2 ^ 52 - 1 / 2 : Rat) < a) hdouble hd
  rw [hplace] at hstep
  norm_num at hstep ha
  linarith

theorem toDouble_natCast_add_half_of_lt {n : Nat} (hn : n < 2 ^ 52) :
    toDouble (n + 1 / 2) = n + 1 / 2 := by
  have hodd : (n + 1 / 2 : Rat) = (2 * n + 1 : Int) * 2 ^ (-1 : Int) := by
    push_cast
    norm_num
    ring
  rw [hodd]
  exact toDouble_of_digits (by rw [abs_of_nonneg (by positivity)]; omega)

/-- A sum with the last place of the summand, which is at least one unit away from the middle. -/
theorem toDouble_add_half_lt_of_same_place (hd : toDouble a = a) (ha : 0 < a) (hhigh : a < 2 ^ 52)
    (hsame : a + 1 / 2 < 2 ^ 53 * lastPlace a) {n : Nat} (hn : n ≤ a + 1 / 2)
    (hn' : a + 1 / 2 < n + 1) : toDouble (a + 1 / 2) < n + 1 := by
  have hplace := lastPlace_pos a
  have hless : (n : Rat) < 2 ^ 52 := by
    calc (n : Rat) < 2 ^ 53 * lastPlace a := hn.trans_lt hsame
      _ ≤ 2 ^ 53 * 2 ^ (-1 : Int) := mul_le_mul_of_nonneg_left
          (lastPlace_le_of_lt ha (by exact_mod_cast hhigh)) (by positivity)
      _ = 2 ^ 52 := by norm_num
  have hmiddle := toDouble_natCast_add_half_of_lt (n := n) (by exact_mod_cast hless)
  have hstep := add_lastPlace_le ha (by linarith : a < n + 1 / 2) hd hmiddle
  have hsum : lastPlace (a + 1 / 2) = lastPlace a := by
    refine lastPlace_of_digits (q := (a + 1 / 2) / lastPlace a) ?_ ?_ ?_
    · rw [← lastPlace, abs_of_pos (by linarith), div_mul_cancel₀ _ hplace.ne']
    · rw [le_div_iff₀ hplace]
      linarith [mul_lastPlace_le ha]
    · rwa [div_lt_iff₀ hplace]
  have herror := abs_toDouble_sub_le_lastPlace (by linarith : 0 < a + 1 / 2)
  rw [hsum] at herror
  linarith [(abs_le.mp herror).2]

/-- A sum that goes beyond a power of two does so by less than one half, and rounding adds one half
at most. -/
theorem toDouble_add_half_lt_of_next_place (hd : toDouble a = a) (hlow : 1 / 2 ≤ a)
    (hhigh : a < 2 ^ 52) (hnext : 2 ^ 53 * lastPlace a ≤ a + 1 / 2) {n : Nat} (hn : n ≤ a + 1 / 2)
    (hn' : a + 1 / 2 < n + 1) : toDouble (a + 1 / 2) < n + 1 := by
  have hless := lt_mul_lastPlace (by linarith : 0 < a)
  obtain ⟨j, hj⟩ := exists_lastPlace_eq (k := -53) (a := a) (by norm_num at hlow ⊢; exact hlow)
  have hpower : 2 ^ 53 * lastPlace a = (2 ^ j : Nat) := by
    rw [hj, zpow_add₀ (by norm_num), ← mul_assoc, zpow_natCast]
    push_cast
    norm_num
  rw [hpower] at hnext hless
  have hequal : n = 2 ^ j := by
    have hle : ((2 ^ j : Nat) : Rat) < n + 1 := by linarith
    have hge : (n : Rat) < (2 ^ j : Nat) + 1 := by linarith
    have hle' : 2 ^ j < n + 1 := by exact_mod_cast hle
    have hge' : n < 2 ^ j + 1 := by exact_mod_cast hge
    omega
  have hsum : a + 1 / 2 ≤ 2 ^ 52 := add_half_le_of_lt hd hhigh
  have herror := (abs_le.mp (abs_toDouble_sub_le_of_pos (by linarith : 0 < a + 1 / 2))).2
  rw [hequal]
  norm_num at herror hsum ⊢
  push_cast at hless
  linarith

/-- Between one half and `2 ^ 52` the sum does not reach the next integer when it is rounded. -/
theorem floor_toDouble_add_half_of_middle (hd : toDouble a = a) (hlow : 1 / 2 ≤ a)
    (hhigh : a < 2 ^ 52) : (toDouble (a + 1 / 2)).floor = (a + 1 / 2).floor := by
  obtain ⟨n, hn⟩ : ∃ n : Nat, (a + 1 / 2).floor = n :=
    Int.eq_ofNat_of_zero_le (Rat.le_floor_iff.mpr (by push_cast; linarith))
  have hle := Rat.floor_le (a + 1 / 2)
  have hlt := Rat.lt_floor (x := a + 1 / 2)
  rw [hn] at hle hlt ⊢
  push_cast at hle hlt
  refine floor_eq_of_bounds ?_ ?_
  · have hpos : (0 : Rat) < n := by linarith
    have hsize : (n : Rat) < 2 ^ 53 :=
      (hle.trans (add_half_le_of_lt hd hhigh)).trans_lt (by norm_num)
    exact_mod_cast le_toDouble hpos hle (toDouble_natCast (by exact_mod_cast hsize))
  · push_cast
    rcases lt_or_ge (a + 1 / 2) (2 ^ 53 * lastPlace a) with hsame | hnext
    · exact toDouble_add_half_lt_of_same_place hd (by linarith) hhigh hsame hle (by linarith)
    · exact toDouble_add_half_lt_of_next_place hd hlow hhigh hnext hle (by linarith)

/-- An integer stays as it is, unless it is odd and the sum lies in the middle. -/
theorem floor_toDouble_add_half_of_large (hd : toDouble a = a) (hlarge : 2 ^ 52 ≤ a)
    (h : ¬Misrounded a) : (toDouble (a + 1 / 2)).floor = (a + 1 / 2).floor := by
  obtain ⟨m, rfl⟩ := exists_natCast_of_le hd hlarge
  have hfloor : ((m : Rat) + 1 / 2).floor = m :=
    floor_eq_of_bounds (by push_cast; linarith) (by push_cast; linarith)
  rw [hfloor]
  rcases lt_or_ge m (2 ^ 53) with hless | hmore
  · have heven : m % 2 = 0 := by
      by_contra hodd
      exact h (.odd m (by omega) (by exact_mod_cast hlarge) hless rfl)
    rw [toDouble_natCast_add_half (by exact_mod_cast hlarge) hless, heven, Nat.add_zero]
    exact_mod_cast Rat.floor_intCast m
  · rw [toDouble_add_half_of_large hd (by exact_mod_cast hmore)]
    exact_mod_cast Rat.floor_intCast m

/-- **The integer below the sum is the same after rounding, unless it is brought up.** -/
theorem floor_toDouble_add_half (hd : toDouble a = a) (ha : 0 ≤ a) (h : ¬Misrounded a) :
    (toDouble (a + 1 / 2)).floor = (a + 1 / 2).floor := by
  rcases lt_or_ge a (1 / 2 - 2⁻¹ ^ 54) with hsmall | hlow
  · exact floor_toDouble_add_half_of_small hd ha hsmall
  have hhalf : 1 / 2 ≤ a :=
    half_le_of_belowHalf_lt hd (hlow.lt_of_ne fun heq ↦ h (.belowHalf heq.symm))
  rcases lt_or_ge a (2 ^ 52) with hless | hlarge
  · exact floor_toDouble_add_half_of_middle hd hhalf hless
  · exact floor_toDouble_add_half_of_large hd hlarge h

/-! ## The sum of doubles -/

/-- The sum never leaves the range. -/
theorem toRat?_abs_add_half (hx : toRat? x = some v) :
    toRat? (x.abs + 0.5) = some (toDouble (|v| + 1 / 2)) := by
  have hhalf : toRat? 0.5 = some (1 / 2) := by decide +kernel
  obtain ⟨t, ht⟩ : ∃ t, |v| + 1 / 2 = t := ⟨_, rfl⟩
  have hpos : 1 / 2 ≤ t := by linarith [abs_nonneg v]
  have habs : |t| = t := abs_of_pos (by linarith)
  have hleast : (2 : Rat) ^ (-1022 : Int) ≤ |t| := by
    rw [habs]
    exact le_trans (zpow_le_zpow_right₀ (by norm_num) (by norm_num : (-1022 : Int) ≤ -1))
      (by norm_num; linarith)
  rw [toRat?_add_eq (toRat?_abs hx) hhalf, ht, nearestDouble_of_le hleast]
  rcases lt_or_ge |v| (2 ^ 53) with hless | hlarge
  · have hsize : |t| < 2 ^ (1023 : Int) := by
      rw [habs]
      exact lt_of_lt_of_le (by norm_num at hless ⊢; linarith : t < 2 ^ (54 : Int))
        (zpow_le_zpow_right₀ (by norm_num) (by norm_num))
    rw [← nearestDouble_of_le hleast, finite_nearestDouble_of_lt hsize]
  · have hsame : toDouble t = |v| := by
      rw [← ht]
      exact toDouble_add_half_of_large (toDouble_of_toRat? (toRat?_abs hx)) hlarge
    have hfinite := finite_nearestDouble (toRat?_abs hx)
    rw [hsame]
    exact finite_eq_some.mpr ⟨rfl, (finite_eq_some.mp hfinite).1 ▸ (finite_eq_some.mp hfinite).2⟩

end Binary64
end Mensura
