import Mensura.Proofs.Binary64.Rounding
import Mensura.Proofs.Scalar.Exact
import Mensura.Proofs.Typeset.Display

/-!
# What a displayed value denotes

Over exact numbers nothing is lost between a value and what is shown of it but the rounding to a
number of decimal places (`Rounds`).

* Without a hint, the power of ten is split between the number and the prefix of the first unit
  (`withPrefix_denotes`).  The prefix stands behind the exponent of that unit, so it counts as often
  as the unit does, below the line as above it.  What the first unit looks like tells its prefix
  (`ShownFirst.unique`).
* With a hint, the number counts hinted units, and in scientific notation a power of ten of them
  (`hinted_denotes`).

`quantity_denotes` puts both together.
-/

set_option autoImplicit false

namespace Mensura
namespace Typeset

/-! ## Numbers -/

/-- The number of units of the last of so many decimal places that is nearest to `x`; of two that
are equally near, the even one. -/
def units (places : Nat) (x : Rat) : Int :=
  let size := Decimal.roundHalfEven (x.num.natAbs * Nat.pow 10 places) x.den
  if x < 0 then -size else size

theorem natAbs_units (places : Nat) (x : Rat) : (units places x).natAbs =
    Decimal.roundHalfEven (x.num.natAbs * Nat.pow 10 places) x.den := by
  rw [units]
  split <;> simp

theorem units_quotient (places : Nat) (x : Rat) :
    ((x.num.natAbs * Nat.pow 10 places : Nat) : Rat) / x.den = |x| * 10 ^ places := by
  rw [Exact.abs_eq_natAbs_div, Nat.cast_mul, div_mul_eq_mul_div]
  norm_cast

theorem abs_units_sub_le (places : Nat) (x : Rat) : |x * 10 ^ places - units places x| ≤ 1 / 2 := by
  have hround := Decimal.abs_roundHalfEven_sub_le (x.num.natAbs * Nat.pow 10 places) x.den_pos
  rw [units_quotient] at hround
  rw [units]
  generalize Decimal.roundHalfEven (x.num.natAbs * Nat.pow 10 places) x.den = size at hround ⊢
  split
  · next hx =>
    rw [abs_of_neg hx] at hround
    push_cast
    rwa [show x * 10 ^ places - -(size : Rat) = size - -x * 10 ^ places by ring]
  · next hx =>
    rw [abs_of_nonneg (not_lt.mp hx), abs_sub_comm] at hround
    exact_mod_cast hround

theorem units_neg_iff {places : Nat} {x : Rat} :
    units places x < 0 ↔ x < 0 ∧ (units places x).natAbs ≠ 0 := by
  rw [units]
  split
  · next hx =>
    rw [and_iff_right hx]
    omega
  · next hx => exact iff_of_false (by omega) fun h ↦ hx h.1

/-- Every reading of a number is written as the units that it is rounded to. -/
theorem fixed_eq_units (places : Nat) {x : Rat} {num den : Nat} (hden : 0 < den)
    (hsize : (num / den : Rat) = |x|) : (Reading.finite (x < 0) num den).fixed places =
      Decimal.signed (units places x < 0) (Decimal.withPoint places (units places x).natAbs) := by
  have hunits : Decimal.roundHalfEven (num * Nat.pow 10 places) den = (units places x).natAbs := by
    rw [natAbs_units]
    refine Decimal.roundHalfEven_congr hden x.den_pos ?_
    rw [units_quotient, ← hsize]
    push_cast
    rw [div_mul_eq_mul_div]
    norm_cast
  rw [Reading.fixed, hunits]
  simp only [units_neg_iff, Bool.decide_and]

/-- The text is the number with so many decimal places that is nearest to `x`: a whole number of
units of the last place. -/
def Rounds (places : Nat) (x : Rat) (text : String) : Prop :=
  ∃ n : Int, |x * 10 ^ places - n| ≤ 1 / 2 ∧
    text = Decimal.signed (n < 0) (Decimal.withPoint places n.natAbs)

theorem rounds_fixed (places : Nat) (x : Rat) :
    Rounds places x ((Scalar.reading x).fixed places) :=
  ⟨units places x, abs_units_sub_le places x,
    fixed_eq_units places x.den_pos (Exact.abs_eq_natAbs_div x).symm⟩

/-! ## Prefixes -/

/-- What the symbol of a base unit looks like with a prefix for a power of ten from milli to kilo;
there is none exactly for the power zero. -/
inductive ShownFirst (b : Base) : (d : Int) → String → Prop
  | plain : ShownFirst b 0 b.symbol
  | withPrefix {m : MetricPrefix} : m ∈ MetricPrefix.all → |m.exponent| ≤ 3 →
    ShownFirst b m.exponent (m.symbol ++ b.symbol)

namespace ShownFirst

/-- All looks of base units, each with the base unit and the power of ten. -/
def table : List (Base × Int × String) :=
  Base.all.flatMap fun b ↦ (b, 0, b.symbol) ::
    (MetricPrefix.all.filter (|·.exponent| ≤ 3)).map fun m ↦ (b, m.exponent, m.symbol ++ b.symbol)

theorem mem_table {b : Base} {d : Int} {s : String} (h : ShownFirst b d s) :
    (b, d, s) ∈ table := by
  refine List.mem_flatMap.mpr ⟨b, by cases b <;> decide, ?_⟩
  cases h with
  | plain => exact List.mem_cons_self
  | withPrefix hm hsmall =>
    exact List.mem_cons_of_mem _
      (List.mem_map.mpr ⟨_, List.mem_filter.mpr ⟨hm, decide_eq_true hsmall⟩, rfl⟩)

/-- **What the first unit looks like tells its prefix.** -/
theorem unique {b c : Base} {d e : Int} {s : String} (h : ShownFirst b d s)
    (h' : ShownFirst c e s) : b = c ∧ d = e := by
  have hlooks : ∀ x ∈ table, ∀ y ∈ table, x.2.2 = y.2.2 → x.1 = y.1 ∧ x.2.1 = y.2.1 := by
    decide +kernel
  exact hlooks _ h.mem_table _ h'.mem_table rfl

end ShownFirst

theorem prefixPower_bounds (decExp : Int) (p : Rat) :
    -3 ≤ prefixPower decExp p ∧ prefixPower decExp p ≤ 3 := by
  have hthree : largestPrefixPower = 3 := rfl
  rw [prefixPower, hthree]
  omega

/-- The symbol of the prefix for a power of ten, as it stands in front of a base unit. -/
theorem shownFirst_prefixPower {d : Int} (hd : -3 ≤ d ∧ d ≤ 3) (b : Base) {symbol : String}
    (hsymbol : symbol = if d = 0 then "" else (MetricPrefix.symbol? d).getD "") :
    ShownFirst b d
      (if symbol.isEmpty then b.symbol else UnitExpr.nameLabel (symbol ++ b.symbol)) := by
  by_cases hzero : d = 0
  · subst hzero hsymbol
    exact .plain
  · have hsmall : |d| ≤ 3 := abs_le.mpr hd
    have hfound : ∀ e ∈ [-3, -2, -1, 1, 2, (3 : Int)],
        (MetricPrefix.all.find? (·.exponent = e)).isSome = true := by decide
    obtain ⟨m, hm⟩ := Option.isSome_iff_exists.mp (hfound d (by simp; omega))
    obtain rfl : m.exponent = d := by simpa using List.find?_some hm
    have hmem := List.mem_of_find?_eq_some hm
    have htable : ∀ m ∈ MetricPrefix.all, |m.exponent| ≤ 3 → m.symbol.isEmpty = false ∧
        ∀ b ∈ Base.all, UnitExpr.nameLabel (m.symbol ++ b.symbol) = m.symbol ++ b.symbol := by
      decide +kernel
    obtain ⟨hne, hlabel⟩ := htable m hmem hsmall
    rw [if_neg hzero, MetricPrefix.symbol?, hm] at hsymbol
    obtain rfl : symbol = m.symbol := hsymbol
    rw [hne, if_neg (by simp), hlabel b (by cases b <;> decide)]
    exact .withPrefix hmem hsmall

/-! ## Values -/

/-- The text shows an amount of the unit with a label; in scientific notation it may have a power of
ten behind a number of one digit before the point. -/
inductive ShownAmount (digits : Nat) (label : String) : (scientific : Bool) → Rat → String → Prop
  | plain {scientific : Bool} {x : Rat} {number : String} : Rounds digits x number →
    ShownAmount digits label scientific x (Text.trim (number ++ " \\ " ++ label))
  | power {x : Rat} {number : String} {k : Int} : k ≠ 0 → 1 ≤ |x| → |x| < 10 →
    Rounds digits x number →
    ShownAmount digits label true (x * 10 ^ k)
      (Text.trim (number ++ " \\times " ++ tenPower (toString k) ++ " \\ " ++ label))

section Shown

variable {digits : Nat} (hdigits : digits ≤ largestPrecision) (q : Quantity Rat)

include hdigits

/-- **A value with a prefix on its first unit**: the number, times the power of ten of the prefix as
often as the unit counts, is the value. -/
theorem withPrefix_denotes {b : Base} {p : Rat} {rest : List (Base × Rat)}
    (hfactors : q.dim.factors = (b, p) :: rest) (hp : p.den = 1) :
    ∃ (d : Int) (x : Rat) (number first : String), ShownFirst b d first ∧
      Rounds digits x number ∧ x * ((10 : Rat) ^ d) ^ p.num = q.value ∧
      withPrefix digits q p = if q.dim.isWritable then
          .ok (number ++ " \\ " ++ layout ((first, p) :: rest.map fun f ↦ (f.1.symbol, f.2)))
        else .error (.fault .integerTooLarge) := by
  have hbounds := prefixPower_bounds q.unit.decExp p
  rw [withPrefix]
  generalize prefixPower q.unit.decExp p = d at hbounds ⊢
  generalize hsymbol : (if d = 0 then "" else (MetricPrefix.symbol? d).getD "") = symbol
  have hshown := shownFirst_prefixPower hbounds b hsymbol.symm
  have hwhole : (p.num : Rat) = p := Rat.coe_int_num_of_den_eq_one hp
  have hshift : (d : Rat) * p = ((d * p.num : Int) : Rat) := by
    rw [Int.cast_mul, hwhole]
  have hten : (10 : Rat) ≠ 0 := by norm_num
  refine ⟨d, q.mantissa * q.unit.multiplier * 10 ^ (q.unit.decExp - d * p.num), _, _, hshown,
    rounds_fixed digits _, ?_, ?_⟩
  · rw [← zpow_mul, mul_assoc, ← zpow_add₀ hten, sub_add_cancel]
    rfl
  · simp only [hshift, Rat.den_intCast, Rat.num_intCast, if_true, ok_bind, Exact.scale10_eq,
      fixed_eq hdigits, liftM_ok, prefixed, Dimension.checkWritable]
    split
    · rw [ok_bind, pure_eq_ok, liftM_ok, ok_bind, factors, hfactors]
      rfl
    · rfl

/-- **A value in the unit of a hint**: the number, times the power of ten behind it, times the scale
of the unit is the value. -/
theorem hinted_denotes (hint : UnitHint Rat) (scientific : Bool) (hdim : hint.unit.dim = q.dim) :
    ∃ (amount : Rat) (text : String),
      hinted ⟨some hint, digits, scientific⟩ hint q = .ok text ∧
        ShownAmount digits hint.label scientific amount text ∧
        amount * hint.unit.scale = q.value := by
  have hten : (10 : Rat) ≠ 0 := by norm_num
  have hfactor : hint.unit.multiplier ≠ 0 := Exact.isFactor_iff.mp hint.unit.isFactor
  have hvalue : q.mantissa * q.unit.multiplier / hint.unit.multiplier *
      10 ^ (q.unit.decExp - hint.unit.decExp) * hint.unit.scale = q.value := by
    change _ * (hint.unit.multiplier * 10 ^ hint.unit.decExp) =
      q.mantissa * q.unit.multiplier * 10 ^ q.unit.decExp
    rw [zpow_sub₀ hten]
    field_simp
  rw [hinted, if_pos hdim]
  simp only [Exact.scale10_eq, Exact.isFinite_eq, Bool.and_true]
  generalize q.mantissa * q.unit.multiplier / hint.unit.multiplier *
    10 ^ (q.unit.decExp - hint.unit.decExp) = amount at hvalue ⊢
  refine ⟨amount, ?_⟩
  simp only [fixed_eq hdigits, liftM_ok, ok_bind, pure_eq_ok]
  by_cases hscientific : (scientific && !Scalar.isZero amount) = true
  · rw [if_pos hscientific]
    by_cases hk : Scalar.ilog10 amount = 0
    · rw [if_pos hk]
      exact ⟨_, rfl, .plain (rounds_fixed digits amount), hvalue⟩
    · rw [if_neg hk]
      rw [Bool.and_eq_true, Bool.not_eq_true'] at hscientific
      obtain ⟨rfl, hzero⟩ := hscientific
      have hne : amount ≠ 0 := Exact.isZero_iff.not.mp (by simp [hzero])
      obtain ⟨hone, hless⟩ := Exact.shift_ilog10_bounds hne
      have hback : amount * 10 ^ (-Scalar.ilog10 amount) * 10 ^ Scalar.ilog10 amount = amount := by
        rw [mul_assoc, ← zpow_add₀ hten, neg_add_cancel, zpow_zero, mul_one]
      have hshown : ShownAmount digits hint.label true _ _ :=
        .power hk hone hless (rounds_fixed digits (amount * 10 ^ (-Scalar.ilog10 amount)))
      rw [hback] at hshown
      exact ⟨_, rfl, hshown, hvalue⟩
  · rw [if_neg hscientific, if_pos rfl]
    exact ⟨_, rfl, .plain (rounds_fixed digits amount), hvalue⟩

/-- **What is displayed of a value denotes it**: with a hint always, and without one if the exponent
of the first unit is an integer and all exponents are short enough to be written. -/
theorem quantity_denotes :
    (∀ b p rest, q.dim.factors = (b, p) :: rest → p.den = 1 →
      ∃ (d : Int) (x : Rat) (number first : String), ShownFirst b d first ∧
        Rounds digits x number ∧ x * ((10 : Rat) ^ d) ^ p.num = q.value ∧
        quantity ⟨none, digits, false⟩ q = if q.dim.isWritable then
            .ok (number ++ " \\ " ++ layout ((first, p) :: rest.map fun f ↦ (f.1.symbol, f.2)))
          else .error (.fault .integerTooLarge)) ∧
    (∀ (hint : UnitHint Rat) (scientific : Bool), hint.unit.dim = q.dim →
      ∃ (amount : Rat) (text : String), quantity ⟨some hint, digits, scientific⟩ q = .ok text ∧
        ShownAmount digits hint.label scientific amount text ∧
        amount * hint.unit.scale = q.value) := by
  refine ⟨fun b p rest hfactors hp ↦ ?_, fun hint scientific ↦ hinted_denotes hdigits q hint _⟩
  obtain ⟨d, x, number, first, hfirst, hnumber, hvalue, htext⟩ :=
    withPrefix_denotes hdigits q hfactors hp
  refine ⟨d, x, number, first, hfirst, hnumber, hvalue, ?_⟩
  rw [← htext]
  simp only [quantity, inBaseUnits, hfactors]
  rfl

end Shown

/-- Two and a half times `10 ^ 7` per square metre. -/
def perArea : Quantity Rat :=
  ⟨5 / 2, PhysUnit.decimal { length := -2 } 7⟩

/-- They are twenty-five per square millimetre. -/
theorem quantity_denotes_perArea :
    ∃ (d : Int) (x : Rat) (number first : String), ShownFirst .length d first ∧
      Rounds 3 x number ∧ x * ((10 : Rat) ^ d) ^ (-2 : Int) = perArea.value ∧
      quantity ⟨none, 3, false⟩ perArea = .ok (number ++ " \\ " ++ layout [(first, -2)]) := by
  have hthree : ((3 : Nat) : Int) ≤ largestPrecision := by decide
  have hfactors : perArea.dim.factors = [(.length, -2)] := by decide +kernel
  have hwritable : perArea.dim.isWritable = true := by decide +kernel
  obtain ⟨d, x, number, first, hfirst, hnumber, hvalue, htext⟩ :=
    (quantity_denotes hthree perArea).1 _ _ _ hfactors (by decide)
  rw [if_pos hwritable] at htext
  exact ⟨d, x, number, first, hfirst, hnumber, hvalue, htext⟩

example : quantity ⟨none, 3, false⟩ perArea =
    .ok "25.000 \\ \\frac\x7b1\x7d\x7bmm^\x7b2\x7d\x7d" := by
  decide +kernel

/-- **An exponent may be too long to be written**; then nothing is displayed. -/
theorem exists_value_not_shown : ∃ (q : Quantity Rat) (p : Rat),
    q.dim.factors = [(.length, p)] ∧ p.den = 1 ∧
      ∀ s, quantity ⟨none, 3, false⟩ q ≠ .ok s := by
  let d : Dimension := { length := (Text.firstTooLarge : Int) }
  have hfactors : d.factors = [(.length, ((Text.firstTooLarge : Int) : Rat))] := by decide +kernel
  have hwritable : d.isWritable = false := by decide +kernel
  refine ⟨⟨1, PhysUnit.decimal d 0⟩, _, hfactors, Rat.den_intCast _, fun s hs ↦ ?_⟩
  have hthree : 3 ≤ largestPrecision := by decide
  have hshown := ((exists_quantity_iff hthree false).mp ⟨s, hs⟩).dim (by
    rw [show Quantity.dim _ = d from rfl, hfactors]
    exact List.cons_ne_nil _ _)
  rw [show Quantity.dim _ = d from rfl, hwritable] at hshown
  cases hshown

end Typeset
end Mensura
