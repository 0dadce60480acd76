import Mensura.Proofs.Registry.Resolution
import Mensura.Proofs.UnitExpr.Reading
import Mensura.Registry.Standard

/-!
# Whether a text names a unit

`Registry.has` asks for the unit of a text, and tells a unit from a text that is none.  Looking a
name up says one or the other, always; the unit of an expression may be neither, because its names
are known and there is no unit that it amounts to.

* `PhysUnit.not_decided_pow_iff`: which powers of a unit are no unit.
* `UnitExpr.not_decided_eval_iff`: an expression is left open exactly if, from left to right, a step
  without a value comes before a name that is unknown (`Valueless`).
* `Registry.has_outcome`: `has` answers for all other texts, with what `get` says.
-/

set_option autoImplicit false

namespace Mensura

/-! ## Decided results -/

/-- A result that says whether there is a unit: something is there, or a text is no unit. -/
inductive Decided {β : Type} : Result β → Prop
  | found (b : β) : Decided (.ok b)
  | unknown (text : String) (fault : UnitFault) : Decided (.error (.calc (.badUnit text fault)))

section Decided

variable {β γ : Type}

theorem not_decided_fault (f : Fault) : ¬Decided (.error (.fault f) : Result β) := nofun

/-- A chain of steps is left open by the first step that leaves it open. -/
theorem not_decided_bind_iff {r : Result β} {f : β → Result γ} :
    ¬Decided (r >>= f) ↔ ¬Decided r ∨ ∃ b, r = .ok b ∧ ¬Decided (f b) := by
  cases r with
  | ok b => simp [Decided.found]
  | error e =>
    have herror : Decided (.error e : Result γ) ↔ Decided (.error e : Result β) := by
      constructor <;> rintro ⟨⟩ <;> exact .unknown _ _
    simp [herror]

/-- What is left open whatever a text is. -/
theorem not_decided_lift_bind {x : Except Fault β} {f : β → Result γ}
    (hf : ∀ b, ¬Decided (f b)) : ¬Decided (liftM x >>= f) := by
  cases x with
  | ok b => exact hf b
  | error e => exact not_decided_fault e

end Decided

variable {α : Type} [Scalar α]

/-! ## Operations on units -/

namespace PhysUnit

/-- The powers of a unit that are no unit: the power zero of a unit that measures something, and
those whose multiplier leaves the range of multipliers. -/
inductive NoPower (u : PhysUnit α) (n : Int) : Prop
  | zero : n = 0 → u.isDimensionless = false → NoPower u n
  | overflow : n ≠ 0 → Scalar.powInt u.multiplier n = none → NoPower u n
  | outOfRange {m : α} :
    n ≠ 0 → Scalar.powInt u.multiplier n = some m → Scalar.isFactor m = false → NoPower u n

theorem not_decided_ofParts_iff {dim : Dimension} {e : Int} {m : α} :
    ¬Decided (ofParts dim e m) ↔ Scalar.isFactor m = false := by
  rw [ofParts]
  split
  · next h => simp [h, Decided.found]
  · next h => exact iff_of_true (not_decided_fault _) (eq_false_of_ne_true h)

/-- **Which powers of a unit are no unit.** -/
theorem not_decided_pow_iff {u : PhysUnit α} {n : Int} : ¬Decided (u.pow n) ↔ u.NoPower n := by
  rw [pow]
  split
  · next hzero =>
    split
    · next hone =>
      refine iff_of_false (not_not_intro (.found _)) ?_
      rintro (⟨-, hdim⟩ | ⟨hne, -⟩ | ⟨hne, -, -⟩)
      · exact absurd hone (by simp [hdim])
      · exact hne hzero
      · exact hne hzero
    · next hdim =>
      refine iff_of_true (not_decided_lift_bind fun _ ↦ nofun) (.zero hzero ?_)
      exact eq_false_of_ne_true hdim
  · next hne =>
    split
    · next m hm =>
      rw [not_decided_ofParts_iff]
      refine ⟨.outOfRange hne hm, ?_⟩
      rintro (⟨hzero, -⟩ | ⟨-, hnone⟩ | ⟨-, hm', hfactor⟩)
      · exact absurd hzero hne
      · exact absurd (hm.symm.trans hnone) nofun
      · exact Option.some.inj (hm.symm.trans hm') ▸ hfactor
    · next hnone =>
      refine iff_of_true (not_decided_lift_bind fun _ ↦ ?_) (.overflow hne hnone)
      exact not_decided_lift_bind fun _ ↦ nofun

end PhysUnit

/-! ## Unit expressions -/

namespace UnitExpr

/-- From left to right, an expression has a step without a value before it has a name that is
unknown. -/
def Valueless (resolve : String → Result (PhysUnit α)) : UnitExpr → Prop
  | name _ => False
  | pow base n => Valueless resolve base ∨ ∃ u, eval resolve base = .ok u ∧ u.NoPower n
  | mul a b => Valueless resolve a ∨ ∃ u, eval resolve a = .ok u ∧ (Valueless resolve b ∨
      ∃ v, eval resolve b = .ok v ∧ Scalar.isFactor (u.multiplier * v.multiplier) = false)
  | div a b => Valueless resolve a ∨ ∃ u, eval resolve a = .ok u ∧ (Valueless resolve b ∨
      ∃ v, eval resolve b = .ok v ∧ Scalar.isFactor (u.multiplier / v.multiplier) = false)

/-- **Which expressions are left open**, where all names are decided. -/
theorem not_decided_eval_iff {resolve : String → Result (PhysUnit α)}
    (h : ∀ text, Decided (resolve text)) (e : UnitExpr) :
    ¬Decided (e.eval resolve) ↔ e.Valueless resolve := by
  induction e with
  | name text => exact iff_of_false (not_not_intro (h text)) id
  | pow base n ih =>
    rw [eval, not_decided_bind_iff, ih, Valueless]
    simp only [PhysUnit.not_decided_pow_iff]
  | mul a b iha ihb =>
    rw [eval, not_decided_bind_iff, iha, Valueless]
    simp only [not_decided_bind_iff, ihb, PhysUnit.mul, PhysUnit.not_decided_ofParts_iff]
  | div a b iha ihb =>
    rw [eval, not_decided_bind_iff, iha, Valueless]
    simp only [not_decided_bind_iff, ihb, PhysUnit.div, PhysUnit.not_decided_ofParts_iff]

/-- Reading is left open by an integer with too many digits alone. -/
theorem not_decided_ofText_iff {text : String} : ¬Decided (ofText text) ↔
    ∃ digits, ofText text = .error (.fault (.integerTooLong digits)) := by
  constructor
  · intro hopen
    by_cases hd : ∃ d, Parses text d
    · obtain ⟨d, hd⟩ := hd
      have hread := ((ofText_outcome text).1 d hd).2
      split at hread
      · obtain ⟨plan, -, hplan⟩ := hread
        exact absurd (hplan ▸ .found plan) hopen
      · exact ⟨_, hread⟩
    · rcases ofText_declines (not_exists.mp hd) with ⟨fault, hfault⟩ | ⟨-, -, l, -, -, hlong⟩
      · exact absurd (hfault ▸ .unknown text fault) hopen
      · exact ⟨_, hlong⟩
  · rintro ⟨digits, h⟩
    rw [h]
    exact not_decided_fault _

end UnitExpr

/-! ## Texts -/

namespace Registry

open UnitExpr

/-- Looking a name up decides it. -/
theorem decided_resolve (r : Registry α) (token : String) : Decided (r.resolve token) := by
  rcases resolve_ok_or_badUnit r token with ⟨u, hu⟩ | ⟨fault, hfault⟩
  · exact hu ▸ .found u
  · exact hfault ▸ .unknown token fault

/-- A text that is more than a name, and neither a unit nor none: an integer in it has too many
digits, or the expression in it has a step without a value. -/
inductive LeavesOpen (r : Registry α) (text : String) : Prop
  | integer {digits : Nat} : isCompound text = true →
    ofText text = .error (.fault (.integerTooLong digits)) → LeavesOpen r text
  | value {e : UnitExpr} : isCompound text = true →
    ofText text = .ok e → e.Valueless r.resolve → LeavesOpen r text

/-- **Which texts are left open.** -/
theorem not_decided_get_iff {r : Registry α} {text : String} :
    ¬Decided (r.get text) ↔ r.LeavesOpen text := by
  rw [get]
  split
  · next hcompound =>
    rw [not_decided_bind_iff, not_decided_ofText_iff]
    constructor
    · rintro (⟨digits, hlong⟩ | ⟨e, he, hopen⟩)
      · exact .integer hcompound hlong
      · exact .value hcompound he ((not_decided_eval_iff r.decided_resolve e).mp hopen)
    · rintro (⟨-, hlong⟩ | ⟨-, he, hvalueless⟩)
      · exact .inl ⟨_, hlong⟩
      · exact .inr ⟨_, he, (not_decided_eval_iff r.decided_resolve _).mpr hvalueless⟩
  · next hsingle =>
    refine iff_of_false (not_not_intro (r.decided_resolve text)) ?_
    rintro (⟨hcompound, -⟩ | ⟨hcompound, -, -⟩)
    · exact hsingle hcompound
    · exact hsingle hcompound

theorem has_eq_true_iff {r : Registry α} {text : String} :
    r.has text = .ok true ↔ ∃ u, r.get text = .ok u := by
  rw [has]
  split
  · next u hu => exact iff_of_true rfl ⟨u, hu⟩
  · next hnone => exact iff_of_false nofun (by simp [hnone])
  · next e _ he => exact iff_of_false nofun (by simp [he])

/-- `has` answers where `get` decides, and passes on any other error. -/
theorem has_cases (r : Registry α) (text : String) :
    Decided (r.get text) ∧ (∃ b, r.has text = .ok b) ∨
      ¬Decided (r.get text) ∧ ∃ e, r.has text = .error e ∧ r.get text = .error e := by
  rw [has]
  split
  · next u hu => exact .inl ⟨hu ▸ .found u, true, rfl⟩
  · next hnone => exact .inl ⟨hnone ▸ .unknown _ _, false, rfl⟩
  · next e hother he =>
    refine .inr ⟨?_, e, rfl, he⟩
    rw [he]
    rintro ⟨⟩
    exact hother _ _ rfl

/-- **Whether a text names a unit.**  For every registry and every text, `has` is true exactly if
there is a unit to get.  It answers, true or false, for every text but those that are left open;
there it fails as `get` does. -/
theorem has_outcome (r : Registry α) (text : String) :
    (r.has text = .ok true ↔ ∃ u, r.get text = .ok u) ∧
    ((∃ b, r.has text = .ok b) ↔ ¬r.LeavesOpen text) ∧
    (r.LeavesOpen text → ∃ e, r.has text = .error e ∧ r.get text = .error e) := by
  refine ⟨has_eq_true_iff, ?_⟩
  rw [← not_decided_get_iff]
  rcases r.has_cases text with ⟨hdecided, hanswer⟩ | ⟨hopen, e, he, hget⟩
  · exact ⟨iff_of_true hanswer (not_not_intro hdecided), fun hopen ↦ absurd hdecided hopen⟩
  · refine ⟨iff_of_false ?_ (not_not_intro hopen), fun _ ↦ ⟨e, he, hget⟩⟩
    rw [he]
    exact nofun

/-! ## A text that is left open -/

/-- The derivation of `m^0`. -/
def zerothPower : Grammar.Expression :=
  .of (.of (.name "m") (some ⟨.caret, ⟨"0", false⟩⟩)) .done

theorem parses_zerothPower : Parses "m^0" zerothPower :=
  .of_lexes <| .of_lexeme? ['m'] (by decide +kernel) <| .of_lexeme? ['^'] (by decide) <|
    .of_lexeme? ['0'] (by decide) <| .done (by simp)

/-- The metre to the power zero is no unit of the standard registry, and `has` does not say so. -/
theorem has_not_zerothPower : (∀ u, (standard : Registry Float).get "m^0" ≠ .ok u) ∧
    ∀ b, (standard : Registry Float).has "m^0" ≠ .ok b := by
  have hmetre : (standard : Registry Float).resolve "m" = .ok (.decimal (.base .length) 0) := rfl
  have hopen : (standard : Registry Float).LeavesOpen "m^0" :=
    .value (by decide +kernel) parses_zerothPower.ofText_eq
      (.inr ⟨_, hmetre, .zero rfl (by decide)⟩)
  rcases (standard : Registry Float).has_cases "m^0" with ⟨hdecided, -⟩ | ⟨-, e, he, hget⟩
  · exact absurd hdecided (not_decided_get_iff.mpr hopen)
  · rw [he, hget]
    exact ⟨nofun, nofun⟩

end Registry
end Mensura
