import Mensura.Proofs.Decimal.Significant

/-!
# Integers on the display

What `Reading.general` writes depends on the sign and the significant digits alone, so a number that
lies close to an integer of few enough digits is written as that integer (`general_near`).  Such an
integer is written in full (`general_natCast`): the zeros that are dropped at its end are put back
before the place where the point would stand.
-/

set_option autoImplicit false

namespace Mensura
namespace Decimal

/-! ## Digits -/

theorem digitChars_eq (n : Nat) : digitChars n = Nat.toDigits 10 n :=
  Nat.toList_repr

/-- A power of ten appends zeros. -/
theorem digitChars_mul_ten_pow {n : Nat} (hn : 0 < n) (j : Nat) :
    digitChars (n * 10 ^ j) = digitChars n ++ List.replicate j '0' := by
  induction j with
  | zero => simp
  | succ j ih =>
    have hzero : Nat.toDigits 10 0 = ['0'] := rfl
    have hstep : n * 10 ^ (j + 1) = 10 * (n * 10 ^ j) + 0 := by ring
    rw [hstep, digitChars_eq, ← Nat.toDigits_append_toDigits (by decide) (by positivity)
      (by decide), ← digitChars_eq, ih, hzero, List.append_assoc, List.replicate_succ']

/-- A number has one digit more than its order. -/
theorem length_digitChars {n : Nat} (hn : 0 < n) : (digitChars n).length = log10 n + 1 := by
  obtain ⟨hlow, hhigh⟩ := log10_bounds hn
  have hle := (Nat.length_toDigits_le_iff (b := 10) (by decide) (Nat.succ_pos _)).mpr hhigh
  have hge : ¬(Nat.toDigits 10 n).length ≤ log10 n := by
    rcases Nat.eq_zero_or_pos (log10 n) with hzero | hpos
    · have hne := List.length_pos_of_ne_nil (Nat.toDigits_ne_nil (n := n) (b := 10))
      omega
    · rw [Nat.length_toDigits_le_iff (by decide) hpos]
      omega
  rw [digitChars_eq]
  omega

theorem dropTrailingZeros_append_zeros (ds : List Char) (j : Nat) :
    dropTrailingZeros (ds ++ List.replicate j '0') = dropTrailingZeros ds := by
  rw [dropTrailingZeros, List.reverse_append, List.reverse_replicate,
    List.dropWhile_append_of_pos (by simp), dropTrailingZeros]

/-- Nothing but zeros is dropped. -/
theorem exists_dropped_zeros (ds : List Char) :
    ∃ j, dropTrailingZeros ds ++ List.replicate j '0' = ds := by
  have hzeros : ∀ c ∈ ds.reverse.takeWhile (· = '0'), c = '0' := fun c hc ↦ by
    simpa using List.mem_takeWhile_imp hc
  refine ⟨(ds.reverse.takeWhile (· = '0')).length, ?_⟩
  rw [← List.reverse_replicate, ← List.eq_replicate_of_mem hzeros, dropTrailingZeros,
    ← List.reverse_append, List.takeWhile_append_dropWhile, List.reverse_reverse]

/-- The zeros dropped at the end of a whole number are written again. -/
theorem mantissa_of_whole {style : Style} {ds : List Char} {k : Nat}
    (hplain : style.isPlain k = true) (hmark : style.markIntegers = false)
    (hlength : ds.length = k + 1) :
    style.mantissa (dropTrailingZeros ds) k = String.ofList ds := by
  obtain ⟨j, hj⟩ := exists_dropped_zeros ds
  have hcount : (dropTrailingZeros ds).length + j = k + 1 := by
    rw [← hlength, ← congrArg List.length hj, List.length_append, List.length_replicate]
  have hmissing : k + 1 - (dropTrailingZeros ds).length = j := by omega
  have htake : (dropTrailingZeros ds).take (k + 1) = dropTrailingZeros ds :=
    List.take_of_length_le (by omega)
  have hdrop : (dropTrailingZeros ds).drop (k + 1) = [] := List.drop_of_length_le (by omega)
  simp only [Style.mantissa, hplain, hmark, Bool.not_true, Bool.false_eq_true, if_false,
    show ¬(k : Int) < 0 by omega, Int.toNat_natCast, htake, hdrop, hmissing, List.isEmpty_nil,
    if_true, zeros]
  conv_rhs => rw [← hj, String.ofList_append]
  simp

/-! ## Significant digits of integers -/

variable {count n num den : Nat}

/-- An integer of at most so many digits, and the number after them, have digits of their own. -/
theorem exists_digits (hcount : 0 < count) (hn : 0 < n) (hn' : n ≤ 10 ^ count) :
    ∃ (d : Nat) (e : Int), 10 ^ (count - 1) ≤ d ∧ d < 10 ^ count ∧
      (n : Rat) * 10 ^ (count - 1 - e) = d ∧
      (n < 10 ^ count → d = n * 10 ^ (count - 1 - log10 n) ∧ e = log10 n) := by
  rcases hn'.lt_or_eq with hless | rfl
  · obtain ⟨hlow, hhigh⟩ := log10_bounds hn
    have hlog : log10 n < count := (Nat.pow_lt_pow_iff_right (by norm_num)).mp (hlow.trans_lt hless)
    have hpower (k : Nat) :
        10 ^ (count - 1 - log10 n) * 10 ^ (log10 n + k) = 10 ^ (count - 1 + k) := by
      rw [← Nat.pow_add]
      congr 1
      omega
    refine ⟨n * 10 ^ (count - 1 - log10 n), log10 n, ?_, ?_, ?_, fun _ ↦ ⟨rfl, rfl⟩⟩
    · rw [← Nat.add_zero (count - 1), ← hpower 0, Nat.mul_comm]
      exact Nat.mul_le_mul_right _ hlow
    · rw [← Nat.sub_add_cancel hcount, ← hpower 1, Nat.mul_comm]
      exact Nat.mul_lt_mul_of_pos_left hhigh (by positivity)
    · have hexponent : (count : Int) - 1 - log10 n = (count - 1 - log10 n : Nat) := by omega
      rw [hexponent, zpow_natCast]
      push_cast
      rfl
  · refine ⟨10 ^ (count - 1), count, le_rfl,
      Nat.pow_lt_pow_right (by norm_num) (by omega), ?_, fun h ↦ absurd h (lt_irrefl _)⟩
    rw [show (count : Int) - 1 - count = -1 by ring, zpow_neg_one, Nat.cast_pow, Nat.cast_pow,
      Nat.cast_ofNat, ← pow_sub_one_mul hcount.ne']
    field_simp

/-- The significant digits of a quotient close to an integer are those of the integer. -/
theorem significant_near (hcount : 0 < count) (hden : 0 < den) (hn : 0 < n) (hn' : n ≤ 10 ^ count)
    (hnear : 2 * 10 ^ count * |(num / den : Rat) - n| < n) :
    significant count num den = significant count n 1 := by
  obtain ⟨d, e, hlow, hhigh, hdigits, -⟩ := exists_digits hcount hn hn'
  have hscale : (0 : Rat) < 10 ^ ((count : Int) - 1 - e) := by positivity
  have hself : significant count n 1 = (d, e) := by
    refine significant_eq hcount Nat.one_pos hlow hhigh ?_
    rw [Nat.cast_one, div_one, hdigits, sub_self, abs_zero, mul_zero]
    exact_mod_cast (Nat.pow_pos (by norm_num)).trans_le hlow
  rw [hself]
  refine significant_eq hcount hden hlow hhigh ?_
  rw [← hdigits, ← sub_mul, abs_mul, abs_of_pos hscale, ← mul_assoc]
  exact mul_lt_mul_of_pos_right hnear hscale

theorem significant_natCast (hn : 0 < n) (hn' : n < 10 ^ count) :
    significant count n 1 = (n * 10 ^ (count - 1 - log10 n), (log10 n : Int)) := by
  have hcount : 0 < count := Nat.pos_of_ne_zero (by rintro rfl; omega)
  obtain ⟨d, e, hlow, hhigh, hdigits, hexact⟩ := exists_digits hcount hn hn'.le
  obtain ⟨rfl, rfl⟩ := hexact hn'
  refine significant_eq hcount Nat.one_pos hlow hhigh ?_
  rw [Nat.cast_one, div_one, hdigits, sub_self, abs_zero, mul_zero]
  exact_mod_cast (Nat.pow_pos (by norm_num)).trans_le hlow

end Decimal

namespace Reading

open Decimal

variable {count n num den : Nat} {negative : Bool}

theorem general_of_pos (hnum : 0 < num) :
    (finite negative num den).general count =
      (let style : Style := ⟨-4, count, false⟩
      let p := significant count num den
      signed negative (style.mantissa (dropTrailingZeros (digitChars p.1)) p.2) ++
        if style.isPlain p.2 then "" else exponentText p.2) := by
  obtain ⟨m, rfl⟩ : ∃ m, num = m + 1 := Nat.exists_eq_add_of_le' hnum
  cases hplain : (⟨-4, count, false⟩ : Style).isPlain (significant count (m + 1) den).2 <;>
    simp [general, generalParts, hplain]

/-- What is written depends on the sign and the significant digits alone. -/
theorem general_congr {num' den' : Nat} (hnum : 0 < num) (hnum' : 0 < num')
    (h : significant count num den = significant count num' den') :
    (finite negative num den).general count = (finite negative num' den').general count := by
  rw [general_of_pos hnum, general_of_pos hnum', h]

/-- **A number close to an integer of few enough digits is written as the integer is.** -/
theorem general_near (hcount : 0 < count) (hnum : 0 < num) (hden : 0 < den) (hn : 0 < n)
    (hn' : n ≤ 10 ^ count) (hnear : 2 * 10 ^ count * |(num / den : Rat) - n| < n) :
    (finite negative num den).general count = (finite negative n 1).general count :=
  general_congr hnum hn (significant_near hcount hden hn hn' hnear)

/-- **An integer of few enough digits is written in full.** -/
theorem general_natCast (hn : 0 < n) (hn' : n < 10 ^ count) :
    (finite negative n 1).general count = signed negative (toString n) := by
  have hlog : log10 n < count :=
    (Nat.pow_lt_pow_iff_right (by norm_num)).mp ((log10_bounds hn).1.trans_lt hn')
  have hplain : (⟨-4, count, false⟩ : Style).isPlain (log10 n) = true := by
    simp only [Style.isPlain, Bool.and_eq_true, decide_eq_true_eq]
    omega
  have hmantissa := mantissa_of_whole hplain rfl (length_digitChars hn)
  rw [general_of_pos hn, significant_natCast hn hn']
  simp only [digitChars_mul_ten_pow hn, dropTrailingZeros_append_zeros, hmantissa, hplain, if_true]
  rw [digitChars, String.ofList_toList, String.append_empty]

end Reading
end Mensura
