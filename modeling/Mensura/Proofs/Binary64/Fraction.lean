import Mathlib.Tactic.LinearCombination
import Mensura.Binary64.Fraction
import Mensura.Proofs.Binary64.Comparison

/-!
# The fraction close to a number

The expansion of a number as a continued fraction ends with a convergent and a mediant that enclose
the number (`Expansion.bracket`), and fractions between two such neighbours have denominators beyond
the bound.  So the nearer one of the two is the closest fraction (`closestFraction_spec`).

A number that lies very close to a fraction with a small denominator has that fraction for its
closest one (`closestFraction_eq`), since two fractions are never closer than their denominators
allow.  So a double close to a fraction stands for it exactly if it is the double nearest to the
fraction (`rationalize?_eq`).
-/

set_option autoImplicit false

namespace Mensura
namespace Binary64

/-! ## The distance of fractions -/

/-- Two different fractions are at least the inverse of the product of their denominators apart. -/
theorem one_le_mul_abs_sub {p p' : Int} {q q' : Nat} (hq : 0 < q) (hq' : 0 < q')
    (hne : (p : Rat) / q ≠ p' / q') : 1 ≤ q * q' * |(p : Rat) / q - p' / q'| := by
  have hqr : (0 : Rat) < q := by exact_mod_cast hq
  have hqr' : (0 : Rat) < q' := by exact_mod_cast hq'
  have hcross : (q * q' : Rat) * |(p : Rat) / q - p' / q'| = |((p * q' - p' * q : Int) : Rat)| := by
    rw [← abs_of_pos (mul_pos hqr hqr'), ← abs_mul]
    congr 1
    push_cast
    field_simp
  have hzero : p * q' - p' * q ≠ 0 := by
    intro h
    apply hne
    rw [div_eq_div_iff hqr.ne' hqr'.ne']
    exact_mod_cast sub_eq_zero.mp h
  rw [hcross]
  exact_mod_cast Int.one_le_abs hzero

/-! ## The expansion -/

/-- What the convergents of a number `r` keep while the quotient `n / d` is left to expand. -/
structure Expansion (bound : Nat) (r : Rat) (c : Convergents) (n d : Nat) : Prop where
  value : r * (c.q₁ * n + c.q₀ * d) = c.p₁ * n + c.p₀ * d
  cross : |c.p₁ * c.q₀ - c.p₀ * c.q₁| = 1
  lt : d < n
  pos : 0 < c.q₁
  le : c.q₁ ≤ bound
  le' : c.q₀ ≤ bound

/-- One more term of the expansion. -/
def Convergents.next (c : Convergents) (a : Nat) : Convergents :=
  ⟨c.p₁, c.q₁, c.p₀ + a * c.p₁, c.q₀ + a * c.q₁⟩

variable {bound : Nat} {r : Rat} {c : Convergents} {n d : Nat}

/-- A quotient with a whole number taken out of it stays the same mixture of convergents. -/
theorem Expansion.next_value (h : Expansion bound r c n d) {a b : Nat} (hsplit : d * a + b = n) :
    r * ((c.next a).q₁ * d + (c.next a).q₀ * b) = (c.next a).p₁ * d + (c.next a).p₀ * b := by
  have hvalue := h.value
  rw [← hsplit] at hvalue
  simp only [Convergents.next]
  push_cast at hvalue ⊢
  linear_combination hvalue

theorem Expansion.next_cross (h : Expansion bound r c n d) (a : Nat) :
    |(c.next a).p₁ * (c.next a).q₀ - (c.next a).p₀ * (c.next a).q₁| = 1 := by
  rw [← h.cross, ← abs_neg]
  simp only [Convergents.next]
  congr 1
  push_cast
  ring

theorem Expansion.next (h : Expansion bound r c n d) (hd : 0 < d)
    (hq : c.q₀ + n / d * c.q₁ ≤ bound) : Expansion bound r (c.next (n / d)) d (n % d) where
  value := h.next_value (Nat.div_add_mod n d)
  cross := h.next_cross (n / d)
  lt := Nat.mod_lt n hd
  pos := by
    have ha : 1 ≤ n / d := (Nat.one_le_div_iff hd).mpr h.lt.le
    have := Nat.mul_le_mul_right c.q₁ ha
    have := h.pos
    simp only [Convergents.next]
    omega
  le := hq
  le' := h.le

/-- The fuel that is left suffices until the denominators pass the bound. -/
def Enough (bound fuel : Nat) (c : Convergents) : Prop :=
  ∃ j, (fuel = 2 * j ∧ bound < 2 ^ j * c.q₁) ∨
    (fuel = 2 * j + 1 ∧ bound < 2 ^ j * (c.q₀ + c.q₁))

theorem Enough.next {fuel : Nat} (h : Enough bound (fuel + 1) c) {a : Nat} (ha : 1 ≤ a) :
    Enough bound fuel (c.next a) := by
  have hq : c.q₀ + c.q₁ ≤ c.q₀ + a * c.q₁ :=
    Nat.add_le_add_left (Nat.le_mul_of_pos_left c.q₁ ha) _
  obtain ⟨j, ⟨hj, hbound⟩ | ⟨hj, hbound⟩⟩ := h
  · obtain ⟨i, rfl⟩ : ∃ i, j = i + 1 := Nat.exists_eq_succ_of_ne_zero (by omega)
    refine ⟨i, .inr ⟨by omega, ?_⟩⟩
    calc bound < 2 ^ (i + 1) * c.q₁ := hbound
      _ = 2 ^ i * (c.q₁ + c.q₁) := by ring
      _ ≤ 2 ^ i * (c.q₁ + (c.q₀ + a * c.q₁)) := Nat.mul_le_mul_left _ (by omega)
  · refine ⟨j, .inl ⟨by omega, ?_⟩⟩
    exact hbound.trans_le (Nat.mul_le_mul_left _ hq)

/-- The expansion ends where nothing is left or the next denominator passes the bound. -/
theorem expand_spec {fuel : Nat} (h : Expansion bound r c n d) (hfuel : Enough bound fuel c) :
    ∃ n' d', Expansion bound r (expand bound fuel c n d) n' d' ∧
      (d' = 0 ∨ bound < (expand bound fuel c n d).q₀ + n' / d' * (expand bound fuel c n d).q₁) := by
  induction fuel generalizing c n d with
  | zero =>
    obtain ⟨j, ⟨hj, hbound⟩ | ⟨hj, hbound⟩⟩ := hfuel
    · obtain rfl : j = 0 := by omega
      have := h.le
      omega
    · omega
  | succ fuel ih =>
    rw [expand]
    by_cases hstop : d = 0 ∨ bound < c.q₀ + n / d * c.q₁
    · simp only [Bool.or_eq_true, decide_eq_true_eq, hstop, if_true]
      exact ⟨n, d, h, hstop⟩
    · simp only [Bool.or_eq_true, decide_eq_true_eq, hstop, if_false]
      have hd : 0 < d := by omega
      exact ih (h.next hd (by omega)) (hfuel.next ((Nat.one_le_div_iff hd).mpr h.lt.le))

/-! ## The closest fraction -/

/-- The convergents that the expansion of a number starts with. -/
theorem expansion_start (r : Rat) (hbound : 0 < bound) :
    Expansion bound r ⟨1, 0, r.floor, 1⟩ (r - r.floor).den (r - r.floor).num.toNat := by
  have hnonneg : 0 ≤ r - r.floor := sub_nonneg.mpr (Rat.floor_le r)
  have hlt : r - r.floor < 1 := by
    have hfloor : r - 1 < r.floor := Rat.lt_floor
    linarith
  have hrest := Rat.num_div_den (r - r.floor)
  have hnum : (((r - r.floor).num.toNat : Int) : Rat) = (r - r.floor).num := by
    rw [Int.toNat_of_nonneg (Rat.num_nonneg.mpr hnonneg)]
  have hden : (0 : Rat) < (r - r.floor).den := by exact_mod_cast (r - r.floor).den_pos
  rw [Int.cast_natCast] at hnum
  rw [div_eq_iff hden.ne'] at hrest
  refine ⟨?_, ?_, ?_, Nat.one_pos, hbound, Nat.zero_le _⟩
  · simp only [Nat.cast_one, Nat.cast_zero, one_mul, zero_mul, add_zero, Int.cast_one, hnum, hrest]
    ring
  · simp
  · have hless : ((r - r.floor).num.toNat : Rat) < (r - r.floor).den := by
      rw [hnum, hrest]
      exact mul_lt_of_lt_one_left hden hlt
    exact_mod_cast hless

theorem enough_start (bound : Nat) (p : Int) : Enough bound (2 * bound.log2 + 2) ⟨1, 0, p, 1⟩ :=
  ⟨bound.log2 + 1, .inl ⟨by ring, by simpa using Nat.lt_log2_self⟩⟩

/-- Other fractions are further away from a number that is close enough to one. -/
theorem lt_abs_sub_of_ne {p p' : Int} {q q' : Nat} (hq : 0 < q) (hq' : 0 < q')
    (hclose : 2 * q * bound * |r - p / q| < 1) (hle : q' ≤ bound)
    (hne : (p' : Rat) / q' ≠ p / q) : |r - p / q| < |p' / q' - r| := by
  have hapart := one_le_mul_abs_sub hq' hq hne
  have htriangle : |(p' : Rat) / q' - p / q| ≤ |p' / q' - r| + |r - p / q| := abs_sub_le _ _ _
  have hqr : (0 : Rat) < q := by exact_mod_cast hq
  have hqr' : (0 : Rat) < q' := by exact_mod_cast hq'
  have hler : (q' : Rat) ≤ bound := by exact_mod_cast hle
  have hnear : (2 * q * q' : Rat) * |r - p / q| < 1 := by
    refine lt_of_le_of_lt (mul_le_mul_of_nonneg_right ?_ (abs_nonneg _)) hclose
    exact mul_le_mul_of_nonneg_left hler (by positivity)
  have hsum : (1 : Rat) ≤ q' * q * (|p' / q' - r| + |r - p / q|) :=
    hapart.trans (mul_le_mul_of_nonneg_left htriangle (by positivity))
  have hless : (q' * q : Rat) * |r - p / q| < q' * q * |p' / q' - r| := by linarith
  exact lt_of_mul_lt_mul_left hless (by positivity)

theorem ratAbs_eq (r : Rat) : Rat.abs r = |r| := by
  rcases le_or_gt 0 r with hr | hr
  · rw [Rat.abs_of_nonneg hr, abs_of_nonneg hr]
  · rw [Rat.abs_of_nonpos hr.le, abs_of_neg hr]

theorem den_div_le (p : Int) {q : Nat} (hq : 0 < q) : ((p : Rat) / q).den ≤ q := by
  have hdvd := Rat.den_dvd p q
  rw [Int.natCast_dvd_natCast, Rat.divInt_eq_div, Int.cast_natCast] at hdvd
  exact Nat.le_of_dvd hq hdvd

/-- Two neighbouring fractions with denominators within the bound, and a number between them.  The
next fraction between them is beyond the bound. -/
structure Bracket (bound : Nat) (r : Rat) (c : Convergents) : Prop where
  cross : |c.p₁ * c.q₀ - c.p₀ * c.q₁| = 1
  pos₀ : 0 < c.q₀
  pos₁ : 0 < c.q₁
  le₀ : c.q₀ ≤ bound
  le₁ : c.q₁ ≤ bound
  lt : bound < c.q₀ + c.q₁
  between : r ∈ Set.uIcc ((c.p₀ : Rat) / c.q₀) (c.p₁ / c.q₁)

/-- A mixture of two numbers lies between them. -/
theorem bounds_of_mixture {s s' a b : Rat} (hle : s ≤ s') (ha : 0 ≤ a) (hb : 0 ≤ b)
    (hpos : 0 < a + b) (h : r * (a + b) = s * a + s' * b) : s ≤ r ∧ r ≤ s' := by
  refine ⟨le_of_mul_le_mul_right ?_ hpos, le_of_mul_le_mul_right ?_ hpos⟩
  · rw [h, mul_add]
    gcongr
  · rw [h, mul_add]
    gcongr

theorem mem_uIcc_of_mixture {p p' : Int} {q q' : Nat} (hq : 0 < q) (hq' : 0 < q')
    (hpos : 0 < q * d + q' * n) (h : r * (q * d + q' * n) = p * d + p' * n) :
    r ∈ Set.uIcc ((p' : Rat) / q') (p / q) := by
  have hweight : (0 : Rat) < q * d + q' * n := by exact_mod_cast hpos
  have hp : (p : Rat) = p / q * q := (div_mul_cancel₀ _ (by exact_mod_cast hq.ne')).symm
  have hp' : (p' : Rat) = p' / q' * q' := (div_mul_cancel₀ _ (by exact_mod_cast hq'.ne')).symm
  rw [hp, hp', mul_assoc, mul_assoc] at h
  rw [Set.mem_uIcc]
  rcases le_total ((p : Rat) / q) (p' / q') with hle | hle
  · exact .inr (bounds_of_mixture hle (by positivity) (by positivity) hweight h)
  · rw [add_comm] at hweight
    exact .inl (bounds_of_mixture hle (by positivity) (by positivity) hweight
      (by linear_combination h))

/-- Where the expansion of a number beyond the bound ends, the last convergent and the last mediant
enclose it. -/
theorem Expansion.bracket (h : Expansion bound r c n d)
    (hstop : d = 0 ∨ bound < c.q₀ + n / d * c.q₁) (hr : bound < r.den) :
    Bracket bound r (c.next ((bound - c.q₀) / c.q₁)) := by
  have hpos := h.pos
  have hle := h.le
  have hle' := h.le'
  have hd : 0 < d := by
    -- with nothing left the number would be the last convergent
    refine Nat.pos_of_ne_zero fun hzero ↦ ?_
    have hn : (n : Rat) ≠ 0 := by exact_mod_cast (hzero ▸ h.lt).ne'
    have hvalue := h.value
    rw [hzero, Nat.cast_zero, mul_zero, mul_zero, add_zero, add_zero, ← mul_assoc] at hvalue
    have hr' : r = c.p₁ / c.q₁ := by
      rw [eq_div_iff (by exact_mod_cast hpos.ne')]
      exact mul_right_cancel₀ hn hvalue
    have hden := den_div_le c.p₁ hpos
    rw [← hr'] at hden
    omega
  obtain ⟨k, hk⟩ : ∃ k, (bound - c.q₀) / c.q₁ = k := ⟨_, rfl⟩
  have htimes : k * c.q₁ ≤ bound - c.q₀ := hk ▸ Nat.div_mul_le_self _ _
  have hnext : bound - c.q₀ < (k + 1) * c.q₁ := by
    rw [← hk, Nat.mul_comm]
    exact Nat.lt_mul_div_succ _ hpos
  have hless : k ≤ n / d := by
    by_contra hmore
    have := Nat.mul_le_mul_right c.q₁ (Nat.le_of_not_le hmore)
    have := hstop.resolve_left hd.ne'
    omega
  have hsplit : d * k + (n - d * k) = n :=
    Nat.add_sub_cancel' ((Nat.mul_le_mul_left d hless).trans (Nat.mul_div_le n d))
  rw [Nat.add_mul, Nat.one_mul] at hnext
  have hmediant : 0 < c.q₀ + k * c.q₁ := by
    rcases Nat.eq_zero_or_pos c.q₀ with hzero | hq₀
    · have : k ≠ 0 := by
        rintro rfl
        omega
      have := Nat.mul_pos (Nat.pos_of_ne_zero this) hpos
      omega
    · omega
  rw [hk]
  refine ⟨h.next_cross k, hpos, hmediant, hle, ?_, ?_, ?_⟩
  · simp only [Convergents.next]
    omega
  · simp only [Convergents.next]
    omega
  · exact mem_uIcc_of_mixture hmediant hpos (Nat.add_pos_left (Nat.mul_pos hmediant hd) _)
      (h.next_value hsplit)

/-- Between two neighbouring fractions every other one has at least the sum of their
denominators. -/
theorem add_le_den_of_between {p p' : Int} {q q' : Nat} {f : Rat} (hq : 0 < q) (hq' : 0 < q')
    (hcross : |p' * q - p * q'| = 1) (hlow : (p : Rat) / q < f) (hhigh : f < p' / q') :
    q + q' ≤ f.den := by
  have hqr : (0 : Rat) < q := by exact_mod_cast hq
  have hqr' : (0 : Rat) < q' := by exact_mod_cast hq'
  have hleft := one_le_mul_abs_sub f.den_pos hq (by rw [Rat.num_div_den]; exact hlow.ne')
  have hright := one_le_mul_abs_sub hq' f.den_pos (by rw [Rat.num_div_den]; exact hhigh.ne')
  rw [Rat.num_div_den, abs_of_pos (by linarith)] at hleft hright
  have hgap : (q * q' : Rat) * (p' / q' - p / q) = 1 := by
    have hvalue : (q * q' : Rat) * (p' / q' - p / q) = ((p' * q - p * q' : Int) : Rat) := by
      push_cast
      field_simp
    have hpos : (0 : Rat) < ((p' * q - p * q' : Int) : Rat) := by
      rw [← hvalue]
      exact mul_pos (mul_pos hqr hqr') (by linarith)
    rw [abs_of_pos (by exact_mod_cast hpos)] at hcross
    rw [hvalue, hcross, Int.cast_one]
  have hsum : (q + q' : Rat) ≤ f.den := by
    calc (q + q' : Rat) = q * 1 + q' * 1 := by rw [mul_one, mul_one]
      _ ≤ q * (q' * f.den * (p' / q' - f)) + q' * (f.den * q * (f - p / q)) := by gcongr
      _ = f.den * (q * q' * (p' / q' - p / q)) := by ring
      _ = f.den := by rw [hgap, mul_one]
  exact_mod_cast hsum

/-- No fraction within the bound is closer than the nearer one of the two. -/
theorem Bracket.nearer (h : Bracket bound r c) {f : Rat} (hf : f.den ≤ bound) :
    |(c.p₀ : Rat) / c.q₀ - r| ≤ |f - r| ∨ |(c.p₁ : Rat) / c.q₁ - r| ≤ |f - r| := by
  by_contra! hcloser
  obtain ⟨hfirst, hsecond⟩ := hcloser
  have hlt := h.lt
  rcases Set.mem_uIcc.mp h.between with ⟨hle, hle'⟩ | ⟨hle, hle'⟩
  · rw [abs_of_nonpos (by linarith : (c.p₀ : Rat) / c.q₀ - r ≤ 0), abs_lt] at hfirst
    rw [abs_of_nonneg (by linarith : 0 ≤ (c.p₁ : Rat) / c.q₁ - r), abs_lt] at hsecond
    have := add_le_den_of_between h.pos₀ h.pos₁ h.cross (f := f) (by linarith) (by linarith)
    omega
  · rw [abs_of_nonneg (by linarith : 0 ≤ (c.p₀ : Rat) / c.q₀ - r), abs_lt] at hfirst
    rw [abs_of_nonpos (by linarith : (c.p₁ : Rat) / c.q₁ - r ≤ 0), abs_lt] at hsecond
    have := add_le_den_of_between h.pos₁ h.pos₀ (by rw [abs_sub_comm]; exact h.cross) (f := f)
      (by linarith) (by linarith)
    omega

/-- **The closest fraction has a denominator within the bound, and no such fraction is closer.** -/
theorem closestFraction_spec (hbound : 0 < bound) (r : Rat) :
    (closestFraction bound r).den ≤ bound ∧
      ∀ f : Rat, f.den ≤ bound → |closestFraction bound r - r| ≤ |f - r| := by
  rw [closestFraction]
  split
  · next hden =>
    refine ⟨hden, fun f _ ↦ ?_⟩
    rw [sub_self, abs_zero]
    exact abs_nonneg _
  · next hden =>
    obtain ⟨n, d, hexpansion, hstop⟩ := expand_spec (expansion_start r hbound)
      (enough_start bound r.floor)
    simp only
    generalize expand bound (2 * bound.log2 + 2) ⟨1, 0, r.floor, 1⟩ (r - r.floor).den
      (r - r.floor).num.toNat = c at hexpansion hstop
    have hbracket := hexpansion.bracket hstop (Nat.lt_of_not_le hden)
    have hmediant : mkRat (c.p₀ + ((bound - c.q₀) / c.q₁ : Nat) * c.p₁)
        (c.q₀ + (bound - c.q₀) / c.q₁ * c.q₁) =
          (c.next ((bound - c.q₀) / c.q₁)).p₁ / (c.next ((bound - c.q₀) / c.q₁)).q₁ :=
      Rat.mkRat_eq_div _ _
    have hconvergent : mkRat c.p₁ c.q₁ =
        (c.next ((bound - c.q₀) / c.q₁)).p₀ / (c.next ((bound - c.q₀) / c.q₁)).q₀ :=
      Rat.mkRat_eq_div _ _
    rw [hmediant, hconvergent, ratAbs_eq, ratAbs_eq]
    generalize c.next ((bound - c.q₀) / c.q₁) = b at hbracket
    split
    · next hle =>
      exact ⟨(den_div_le _ hbracket.pos₀).trans hbracket.le₀,
        fun f hf ↦ (hbracket.nearer hf).elim id hle.trans⟩
    · next hlt =>
      exact ⟨(den_div_le _ hbracket.pos₁).trans hbracket.le₁,
        fun f hf ↦ (hbracket.nearer hf).elim (le_of_not_ge hlt).trans id⟩

/-- **A fraction with a small denominator is the closest one to every number close to it.** -/
theorem closestFraction_eq {p : Int} {q : Nat} (hq : 0 < q) (hsmall : 2 * q ≤ bound)
    (hclose : 2 * q * bound * |r - p / q| < 1) : closestFraction bound r = p / q := by
  obtain ⟨hden, hclosest⟩ := closestFraction_spec (by omega : 0 < bound) r
  by_contra hne
  have haway := lt_abs_sub_of_ne hq (closestFraction bound r).den_pos hclose hden
    (by rwa [Rat.num_div_den])
  have hnear := hclosest (p / q) ((den_div_le p hq).trans (by omega))
  rw [Rat.num_div_den] at haway
  rw [abs_sub_comm ((p : Rat) / q)] at hnear
  exact absurd haway (not_lt.mpr hnear)

/-- **A double close to a fraction with a small denominator stands for it exactly if it is the
double nearest to the fraction**, and otherwise for no fraction at all. -/
theorem rationalize?_eq {x : Float} {p : Int} {q : Nat} (hx : toRat? x = some r) (hq : 0 < q)
    (hsmall : 2 * q ≤ bound) (hclose : 2 * q * bound * |r - p / q| < 1)
    (hrange : Normal ((p : Rat) / q)) :
    rationalize? bound x = if toDouble (p / q) = r then some ((p : Rat) / q) else none := by
  have hnearest := toRat?_ofRat (.inr hrange)
  simp only [rationalize?, hx, Option.bind_eq_bind, Option.bind_some,
    closestFraction_eq hq hsmall hclose, beq_iff hnearest hx]

end Binary64
end Mensura
