import Mensura.Proofs.Expr.Dependence
import Mensura.Scalar.Binary64
import Mensura.Typeset.Expr

/-!
# Expressions that have a formula

Typesetting an expression fails at a literal that cannot be shown, or at an operator with a number
of operands that no formula has.  Names and functions are always shown, so whether an expression has
a formula does not depend on what its names are called (`shown_rename`).  What can be read has a
formula (`shown_of_ofText`): its operators have their operands, and its literals are plain numbers.
-/

set_option autoImplicit false

namespace Mensura
namespace Typeset

variable {α : Type} [Scalar α] {f : Format α}

/-- The expression has a formula. -/
def Shown (f : Format α) (e : Expr α) : Prop :=
  ∃ s, expr f e = .ok s

theorem shown_literal {value : Quantity α} :
    Shown f (.literal value) ↔ ∃ s, literal f value = .ok s := by
  rw [Shown, expr]

theorem shown_ident (name : String) : Shown f (.ident name) :=
  ⟨name, by rw [expr]⟩

theorem length_exprs {es : List (Expr α)} {ss : List String} (h : exprs f es = .ok ss) :
    ss.length = es.length := by
  induction es generalizing ss with
  | nil =>
    rw [exprs] at h
    cases h
    rfl
  | cons e es ih =>
    rw [exprs] at h
    obtain ⟨s, -, h⟩ := bind_eq_ok.mp h
    obtain ⟨ts, hts, h⟩ := bind_eq_ok.mp h
    cases h
    rw [List.length_cons, List.length_cons, ih hts]

theorem exists_exprs_iff {es : List (Expr α)} :
    (∃ ss, exprs f es = .ok ss) ↔ ∀ e ∈ es, Shown f e := by
  induction es with
  | nil => simp [exprs]
  | cons e es ih =>
    rw [List.forall_mem_cons, ← ih, exprs]
    constructor
    · rintro ⟨_, h⟩
      obtain ⟨s, hs, h⟩ := bind_eq_ok.mp h
      obtain ⟨ss, hss, -⟩ := bind_eq_ok.mp h
      exact ⟨⟨s, hs⟩, ss, hss⟩
    · rintro ⟨⟨s, hs⟩, ss, hss⟩
      exact ⟨s :: ss, by simp [hs, hss]⟩

theorem shown_call {function : String} {args : List (Expr α)} :
    Shown f (.call function args) ↔ ∀ a ∈ args, Shown f a := by
  rw [← exists_exprs_iff, Shown, expr]
  constructor
  · rintro ⟨_, h⟩
    obtain ⟨ss, hss, -⟩ := bind_eq_ok.mp h
    exact ⟨ss, hss⟩
  · rintro ⟨ss, hss⟩
    exact ⟨_, by rw [hss]; rfl⟩

/-- Operators of one operand are shown with more of them, too, of which they show the first. -/
theorem exists_operator_iff {op : Operator α} {ss : List String} :
    (∃ s, operator op ss = .ok s) ↔ ss.length = op.arity ∨ op.arity = 1 ∧ 0 < ss.length := by
  cases op <;> rcases ss with - | ⟨a, - | ⟨b, - | ⟨c, ss⟩⟩⟩ <;> simp [operator, Operator.arity]

theorem shown_apply {op : Operator α} {es : List (Expr α)} :
    Shown f (.apply op es) ↔
      (∀ e ∈ es, Shown f e) ∧ (es.length = op.arity ∨ op.arity = 1 ∧ 0 < es.length) := by
  rw [← exists_exprs_iff, Shown, expr]
  constructor
  · rintro ⟨s, h⟩
    obtain ⟨ss, hss, hs⟩ := bind_eq_ok.mp h
    rw [← length_exprs hss]
    exact ⟨⟨ss, hss⟩, exists_operator_iff.mp ⟨s, hs⟩⟩
  · rintro ⟨⟨ss, hss⟩, hlength⟩
    rw [← length_exprs hss] at hlength
    obtain ⟨s, hs⟩ := exists_operator_iff.mpr hlength
    exact ⟨s, by rw [hss, ok_bind, hs]⟩

/-- What names are called does not matter. -/
theorem shown_rename (g : String → String) {e : Expr α} : Shown f (e.rename g) ↔ Shown f e := by
  induction e using Expr.inductionOn with
  | literal value => rw [Expr.rename]
  | ident name => exact iff_of_true (shown_ident _) (shown_ident _)
  | call function args ih =>
    rw [Expr.rename, Expr.renameAll_eq_map, shown_call, shown_call, List.forall_mem_map]
    exact forall₂_congr ih
  | apply op operands ih =>
    rw [Expr.rename, Expr.renameAll_eq_map, shown_apply, shown_apply, List.forall_mem_map,
      List.length_map]
    exact and_congr_left' (forall₂_congr ih)

/-! ## Expressions that are read -/

/-- Normalizing leaves a multiplier of one alone. -/
theorem normalize_multiplier {q v : Quantity α} (hone : Scalar.isOne q.unit.multiplier = true)
    (hpos : Scalar.lt q.unit.multiplier (Scalar.ofNat 0) = false) (h : q.normalize = .ok v) :
    v.unit.multiplier = q.unit.multiplier ∧ v.dim = q.dim := by
  rw [Quantity.normalize] at h
  split at h
  · cases h
    exact ⟨rfl, rfl⟩
  split at h
  · exact absurd h fail_ne_ok
  · simp only [hone, hpos, Bool.false_eq_true, if_false, if_true] at h
    obtain ⟨unit, hunit, h⟩ := bind_eq_ok.mp h
    cases h
    rw [PhysUnit.ofParts, dif_pos q.unit.isFactor] at hunit
    cases hunit
    exact ⟨rfl, rfl⟩

/-- A number is read as a plain number. -/
theorem shown_literalOf {f : Format Float} {t : Token} {e : Expr Float}
    (h : Expr.literalOf t = .ok e) : Shown f e := by
  rw [Expr.literalOf] at h
  dsimp only at h
  split at h
  · next q hq =>
    cases h
    obtain ⟨⟨m, k⟩, -, hq⟩ := Option.bind_eq_some_iff.mp hq
    have hnormal : (Quantity.ofScalar (Scalar.ofDecimal m k : Float)).normalize = .ok q := by
      revert hq
      cases (Quantity.ofScalar (Scalar.ofDecimal m k : Float)).normalize with
      | ok v =>
        rintro ⟨⟩
        rfl
      | error e => exact fun hq ↦ by cases hq
    have hone : Scalar.isOne (Scalar.ofNat 1 : Float) = true := by decide +kernel
    have hpos : Scalar.lt (Scalar.ofNat 1 : Float) (Scalar.ofNat 0) = false := by decide +kernel
    obtain ⟨hmultiplier, hdim⟩ := normalize_multiplier hone hpos hnormal
    have hdimless : (1 : Dimension).isDimensionless = true := by decide
    have hplain : (q.isDimensionless && Scalar.isOne q.unit.multiplier) = true := by
      rw [hmultiplier, Quantity.isDimensionless, PhysUnit.isDimensionless, ← Quantity.dim, hdim]
      exact Bool.and_eq_true_iff.mpr ⟨hdimless, hone⟩
    exact shown_literal.mpr ⟨number q.value, by rw [literal, if_pos hplain]⟩
  · exact absurd h fail_ne_ok

/-- What a part adds has a formula. -/
def PartShown (f : Format α) : Expr.Part α → Prop
  | .expression _ e => Shown f e
  | .operand e => Shown f e
  | .climb _ left e => Shown f left → Shown f e
  | .arguments es => ∀ e ∈ es, Shown f e

theorem shown_of_derives {f : Format Float} {r : Registry Float} {part : Expr.Part Float}
    {ts rest : List Token} (h : Expr.Derives r part ts rest) : PartShown f part := by
  induction h with
  | expression _ _ ih₁ ih₂ => exact ih₂ ih₁
  | number _ hl => exact shown_literalOf hl
  | ident => exact shown_ident _
  | emptyCall => exact shown_call.mpr nofun
  | call _ _ _ _ _ ih => exact shown_call.mpr ih
  | paren _ _ _ ih | plus _ _ ih => exact ih
  | minus _ _ ih =>
    exact shown_apply.mpr ⟨List.forall_mem_singleton.mpr ih, .inl rfl⟩
  | attach _ _ _ _ _ ih =>
    exact fun hleft ↦ ih (shown_apply.mpr ⟨List.forall_mem_singleton.mpr hleft, .inl rfl⟩)
  | operator _ hop _ _ _ ih₁ ih₂ =>
    exact fun hleft ↦ ih₂ (shown_apply.mpr
      ⟨by simpa using ⟨hleft, ih₁⟩, .inl (Expr.arity_of_ofToken? hop).symm⟩)
  | settled => exact id
  | lastArgument _ _ ih => simpa [PartShown] using ih
  | moreArguments _ _ _ ih₁ ih₂ => exact List.forall_mem_cons.mpr ⟨ih₁, ih₂⟩

/-- **What is read has a formula.** -/
theorem shown_of_ofText (f : Format Float) {r : Registry Float} {text : String} {e : Expr Float}
    (h : Expr.ofText r text = .ok e) : Shown f e := by
  obtain ⟨ts, -, hread⟩ := Expr.ofText_eq_ok.mp h
  obtain ⟨rest, hderives, -⟩ := Expr.ofTokens_eq_ok.mp hread
  exact shown_of_derives hderives

end Typeset
end Mensura
