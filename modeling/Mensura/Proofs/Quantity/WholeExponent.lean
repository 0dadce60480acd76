import Mensura.Proofs.Binary64.Whole
import Mensura.Proofs.Quantity.Exponent

/-!
# Exponents with the same value

Quantities that hold the same number may hold it in different ways: `15`, and `1.5 · 10` normalized.
As exponents they are taken for their values, so that how they hold it makes no difference, but not
all of them are taken: an exponent with a unit is refused unless its mantissa is an integer,
whatever its value is (`pow_of_value`).  So `15 m` is an exponent before it is normalized, and none
after that (`exists_normalized_exponent_refused`).
-/

set_option autoImplicit false

namespace Mensura
namespace Quantity

open Binary64

variable {p : Quantity Float} {n : Int}

/-- An integer that a quantity holds: its value as it is computed, or exactly its mantissa times its
power of ten. -/
inductive HoldsInt (p : Quantity Float) (n : Int) : Prop
  | computed : toRat? p.value = some (n : Rat) → HoldsInt p n
  | exactly {m : Rat} : toRat? p.mantissa = some m → toRat? p.unit.multiplier = some 1 →
    m * 10 ^ p.unit.decExp = n → HoldsInt p n

/-- What is held exactly is also computed. -/
theorem HoldsInt.value (h : p.HoldsInt n) (hn : |n| < 2 ^ 53) :
    toRat? p.value = some (n : Rat) := by
  cases h with
  | computed h => exact h
  | exactly hmantissa hmultiplier h =>
    have hproduct := toRat?_mul_eq hmantissa hmultiplier
    rw [mul_one, finite_nearestDouble hmantissa] at hproduct
    exact toRat?_scale10_whole hn hproduct h

/-- An exponent that is taken: a plain number, or one with an integer mantissa. -/
def Admitted (p : Quantity Float) : Prop :=
  p.dim = 1 ∨ (Scalar.toInt? p.mantissa).isSome = true

theorem pow_of_admitted (q : Quantity Float) (hp : p.Admitted)
    (hvalue : toRat? p.value = some (n : Rat)) : q.pow p = q.powInt n := by
  have hguard : (!p.isDimensionless && (Scalar.toInt? p.mantissa).isNone) = false := by
    rcases hp with hdim | hmantissa
    · have hplain : p.isDimensionless = true := decide_eq_true hdim
      rw [hplain]
      rfl
    · rw [Option.isNone_eq_false_iff.mpr hmantissa, Bool.and_false]
  have hfinite : Scalar.isFinite p.value = true := isFinite_of_toRat? hvalue
  have hint : Scalar.toInt? p.value = some n := (toInt?_eq_some hvalue).mpr rfl
  rw [pow, hguard, hfinite, hint]
  rfl

theorem pow_of_not_admitted (q : Quantity Float) (hp : ¬p.Admitted) (v : Quantity Float) :
    q.pow p ≠ .ok v := by
  rw [Admitted, not_or, Bool.not_eq_true, Option.isSome_eq_false_iff] at hp
  have hplain : p.isDimensionless = false := decide_eq_false hp.1
  intro h
  rw [pow, hplain, hp.2] at h
  obtain ⟨text, -, h⟩ := bind_eq_ok.mp h
  exact fail_ne_ok h

/-- **A power depends on its exponent through dimension and value**, among exponents that hold the
same small integer in the same dimension, if they are plain numbers or their mantissas are both
integers or both not.  An exponent with a unit whose mantissa is not an integer is refused. -/
theorem pow_of_value (q : Quantity Float) {p₁ p₂ : Quantity Float} (hdim : p₁.dim = p₂.dim)
    (h₁ : p₁.HoldsInt n) (h₂ : p₂.HoldsInt n) (hn : |n| < 2 ^ 53) :
    (p₁.dim = 1 ∨ (Scalar.toInt? p₁.mantissa).isSome = (Scalar.toInt? p₂.mantissa).isSome →
      ((∃ v, q.pow p₁ = .ok v) ↔ ∃ v, q.pow p₂ = .ok v) ∧
      ∀ v w, q.pow p₁ = .ok v → q.pow p₂ = .ok w → v = w) ∧
    (p₁.dim ≠ 1 → Scalar.toInt? p₁.mantissa = none → ∀ v, q.pow p₁ ≠ .ok v) := by
  refine ⟨fun halike ↦ ?_, fun hunit hmantissa ↦ ?_⟩
  · have hadmitted : p₁.Admitted ↔ p₂.Admitted := by
      rw [Admitted, Admitted, ← hdim]
      rcases halike with hplain | halike
      · simp [hplain]
      · rw [halike]
    by_cases hp : p₁.Admitted
    · have hsame : q.pow p₁ = q.pow p₂ := by
        rw [pow_of_admitted q hp (h₁.value hn), pow_of_admitted q (hadmitted.mp hp) (h₂.value hn)]
      rw [hsame]
      exact ⟨Iff.rfl, fun v w hv hw ↦ Except.ok.inj (hv.symm.trans hw)⟩
    · have hrefused := pow_of_not_admitted q hp
      have hrefused' := pow_of_not_admitted q (mt hadmitted.mpr hp)
      exact ⟨iff_of_false (fun ⟨v, hv⟩ ↦ hrefused v hv) fun ⟨v, hv⟩ ↦ hrefused' v hv,
        fun v w hv ↦ absurd hv (hrefused v)⟩
  · refine pow_of_not_admitted q ?_
    rw [Admitted, hmantissa]
    simp [hunit]

/-- So many metres, of a power of ten. -/
def metres (m : Float) (e : Int) : Quantity Float :=
  ⟨m, .decimal (.base .length) e⟩

theorem metres_dim (m : Float) (e : Int) : (metres m e).dim = .base .length := rfl

theorem metres_holdsInt {m : Float} {e : Int} {a : Rat} {n : Int} (hm : toRat? m = some a)
    (h : a * 10 ^ e = n) : (metres m e).HoldsInt n :=
  .exactly hm toRat?_ofNat_one h

/-- Fifteen metres, and fifteen hundred hundredths of them. -/
theorem pow_of_value_fifteen_metres : ∃ v, (metres 1 0).pow (metres 15 0) = .ok v ∧
    (metres 1 0).pow (metres 1500 (-2)) = .ok v := by
  have h₁ : (metres 15 0).HoldsInt 15 :=
    metres_holdsInt (a := 15) (by decide +kernel) (by norm_num)
  have h₂ : (metres 1500 (-2)).HoldsInt 15 :=
    metres_holdsInt (a := 1500) (by decide +kernel) (by norm_num)
  have hdim : (metres 15 0).dim = (metres 1500 (-2)).dim := by rw [metres_dim, metres_dim]
  obtain ⟨hboth, hequal⟩ := (pow_of_value (metres 1 0) hdim h₁ h₂ (by norm_num)).1
    (.inr (by decide +kernel))
  obtain ⟨v, hv⟩ := exists_eq_ok (by decide +kernel :
    ((metres 1 0).pow (metres 15 0)).isOk = true)
  obtain ⟨w, hw⟩ := hboth.mp ⟨v, hv⟩
  obtain rfl := hequal v w hv hw
  exact ⟨v, hv, hw⟩

/-- **Normalizing an exponent may make a power fail.**  A metre can be raised to the power of
fifteen metres, and cannot any more when these are normalized, though they are as many as before. -/
theorem exists_normalized_exponent_refused : ∃ p r : Quantity Float,
    (metres 15 0).normalize = .ok p ∧ p.dim = (metres 15 0).dim ∧
    toRat? (metres 15 0).unit.multiplier = some 1 ∧ toRat? p.unit.multiplier = some 1 ∧
    toRat? (metres 15 0).value = some 15 ∧ toRat? p.value = some 15 ∧
    (metres 1 0).pow (metres 15 0) = .ok r ∧ ∀ v, (metres 1 0).pow p ≠ .ok v := by
  have htable : (metres 15 0).normalize.toOption.map (fun p ↦
      (p.dim, p.unit.decExp, toRat? p.mantissa, toRat? p.unit.multiplier)) =
        some (.base .length, 1, some (3 / 2), some 1) := by decide +kernel
  obtain ⟨r, hr⟩ := exists_eq_ok (by decide +kernel :
    ((metres 1 0).pow (metres 15 0)).isOk = true)
  cases hp : (metres 15 0).normalize with
  | error e => rw [hp] at htable; cases htable
  | ok p =>
    rw [hp] at htable
    simp only [Except.toOption, Option.map_some, Option.some.injEq, Prod.mk.injEq] at htable
    obtain ⟨hdim, hexp, hmantissa, hmultiplier⟩ := htable
    have hrefused : ¬p.Admitted := by
      rintro (hplain | hint)
      · rw [hdim] at hplain
        exact absurd hplain (by decide +kernel)
      · obtain ⟨k, hk⟩ := Option.isSome_iff_exists.mp hint
        have hhalf := (toInt?_eq_some hmantissa).mp hk
        have hodd : (3 : Int) = 2 * k := by
          have hdouble : (3 : Rat) = 2 * k := by rw [← hhalf]; norm_num
          exact_mod_cast hdouble
        omega
    have hfifteen : (metres 15 0).HoldsInt 15 :=
      metres_holdsInt (a := 15) (by decide +kernel) (by norm_num)
    have hfifteen' : p.HoldsInt 15 := .exactly hmantissa hmultiplier (by rw [hexp]; norm_num)
    exact ⟨p, r, rfl, hdim.trans (metres_dim 15 0).symm, toRat?_ofNat_one, hmultiplier,
      hfifteen.value (by norm_num), hfifteen'.value (by norm_num), hr,
      pow_of_not_admitted _ hrefused⟩

end Quantity
end Mensura
