import Mensura.Proofs.Expr.Reference
import Mensura.Proofs.Typeset.Reading
import Mensura.Scalar.Binary64

/-!
# What formulas show

A formula brings parentheses for sums and differences only.  So it leaves open how products, signs,
units and powers in a row are put together: `(a * b) ^ c` looks like `a * b ^ c`.

* `Regroups` says that two expressions differ in just that, by four rules applied anywhere inside
  them.  Such expressions have one formula (`formula_eq_of_regroups`), and no others do
  (`regroups_of_formula_eq`): every expression can be grouped as its formula looks, and the
  grouping is then read from the formula.
* `expr_eq_iff_regroups` puts this together.  Expressions that are grouped as they look are told by
  their formulas, so that one formula means one value.
* `amount_eq_of_expr_eq`: in exact arithmetic only one of the rules is to blame.  Expressions in
  which every power is one of a single factor have the same value if they have the same formula.
-/

set_option autoImplicit false

namespace Mensura
namespace Typeset

open Mensura.Expr

variable {α : Type} [Scalar α] {powers : Prop}

/-! ## Regrouping -/

/-- The marks that move into products and behind signs: units do, powers if they are said to. -/
def Mark.Moves (powers : Prop) : Mark α → Prop
  | unit _ _ => True
  | power _ => powers

/-- The four ways to group anew: an expression, and one that means something else but looks the
same in a formula. -/
inductive Rule (powers : Prop) : Expr α → Expr α → Prop
  | product (a b c : Expr α) :
    Rule powers (binary .mul a (binary .mul b c)) (binary .mul (binary .mul a b) c)
  | sign (a b : Expr α) :
    Rule powers (unary .neg (binary .mul a b)) (binary .mul (unary .neg a) b)
  | markSign {m : Mark α} (e : Expr α) : m.Moves powers →
    Rule powers (m.on (unary .neg e)) (unary .neg (m.on e))
  | markProduct {m : Mark α} (a b : Expr α) : m.Moves powers →
    Rule powers (m.on (binary .mul a b)) (binary .mul a (m.on b))

/-- Two expressions differ in nothing but grouping, anywhere inside them. -/
inductive Regroups (powers : Prop) : Expr α → Expr α → Prop
  | rule {a b : Expr α} : Rule powers a b → Regroups powers a b
  | argument {function : String} (before after : List (Expr α)) {a b : Expr α} :
    Regroups powers a b →
    Regroups powers (.call function (before ++ a :: after)) (.call function (before ++ b :: after))
  | operand {op : Operator α} (before after : List (Expr α)) {a b : Expr α} :
    Regroups powers a b →
    Regroups powers (.apply op (before ++ a :: after)) (.apply op (before ++ b :: after))
  | refl (e : Expr α) : Regroups powers e e
  | symm {a b : Expr α} : Regroups powers a b → Regroups powers b a
  | trans {a b c : Expr α} : Regroups powers a b → Regroups powers b c → Regroups powers a c

namespace Regroups

theorem unary {op : Operator α} {a b : Expr α} (h : Regroups powers a b) :
    Regroups powers (unary op a) (unary op b) :=
  .operand [] [] h

theorem binary {op : Operator α} {a a' b b' : Expr α} (ha : Regroups powers a a')
    (hb : Regroups powers b b') : Regroups powers (binary op a b) (binary op a' b') :=
  .trans (.operand [] [b] ha) (.operand [a'] [] hb)

theorem on {m : Mark α} {a b : Expr α} (h : Regroups powers a b) :
    Regroups powers (m.on a) (m.on b) := by
  cases m with
  | unit u label => exact h.unary
  | power e => exact h.binary (.refl e)

end Regroups

/-! ## Formulas do not show it -/

theorem formula_mul (a b : Expr α) :
    formula (binary .mul a b) = formula a ++ (times ++ formula b) := by
  simp [binary, formula, formulas, applied]

theorem formula_rule {a b : Expr α} (h : Rule powers a b) : formula a = formula b := by
  cases h with
  | product a b c => simp only [formula_mul, List.append_assoc]
  | sign a b => simp only [formula_mul, formula_neg, List.cons_append]
  | markSign e _ => simp only [formula_on, formula_neg, List.cons_append]
  | markProduct a b _ => simp only [formula_on, formula_mul, List.append_assoc]

/-- **Expressions that differ in grouping have one formula.** -/
theorem formula_eq_of_regroups {a b : Expr α} (h : Regroups powers a b) :
    formula a = formula b := by
  induction h with
  | rule h => exact formula_rule h
  | argument _ _ _ ih => simp only [formula, formulas_eq_map, List.map_append, List.map_cons, ih]
  | operand _ _ _ ih => simp only [formula, formulas_eq_map, List.map_append, List.map_cons, ih]
  | refl _ => rfl
  | symm _ ih => exact ih.symm
  | trans _ _ ih₁ ih₂ => exact ih₁.trans ih₂

/-! ## One grouping for each formula -/

/-- An expression that looks like more than a factor. -/
inductive Composite : Expr α → Prop
  | product (a b : Expr α) : Composite (binary .mul a b)
  | sign (e : Expr α) : Composite (unary .neg e)
  | mark {m : Mark α} {e : Expr α} : Composite e → Composite (m.on e)

theorem composite_pow {a b : Expr α} (h : Composite (binary .pow a b)) : Composite a := by
  generalize hx : binary .pow a b = x at h
  cases h with
  | product => simp [binary] at hx
  | sign => simp [binary, unary] at hx
  | @mark m e h =>
    cases m with
    | unit u label => simp [Mark.on, binary, unary] at hx
    | power c =>
      obtain ⟨rfl, -⟩ : a = e ∧ b = c := by simpa [Mark.on, binary] using hx
      exact h

/-- No power has a base that looks like more than a factor. -/
def SingleBases (e : Expr α) : Prop :=
  ∀ a b, Occurs (binary .pow a b) e → ¬Composite a

theorem SingleBases.part {x e : Expr α} (h : SingleBases e) (hx : Occurs x e) : SingleBases x :=
  fun a b hab ↦ h a b (hab.trans hx)

theorem Signed.exists_on {p : Expr α → Prop} {m : Mark α} {e : Expr α} (h : Signed p e)
    (hm : m.Holds p) (hmoves : m.Moves powers) :
    ∃ e', Regroups powers (m.on e) e' ∧ Signed p e' := by
  induction h with
  | factor h => exact ⟨_, .refl _, .factor (.mark h hm)⟩
  | neg _ ih =>
    obtain ⟨e', hregroups, hsigned⟩ := ih
    exact ⟨_, .trans (.rule (.markSign _ hmoves)) hregroups.unary, .neg hsigned⟩

theorem Row.exists_on {p : Expr α → Prop} {m : Mark α} {e : Expr α} (h : Row p e)
    (hm : m.Holds p) (hmoves : m.Moves powers) :
    ∃ e', Regroups powers (m.on e) e' ∧ Row p e' := by
  cases h with
  | term h =>
    obtain ⟨e', hregroups, hsigned⟩ := h.exists_on hm hmoves
    exact ⟨e', hregroups, .term hsigned⟩
  | @product a b ha hb =>
    obtain ⟨b', hregroups, hsigned⟩ := hb.exists_on hm hmoves
    exact ⟨_, .trans (.rule (.markProduct a b hmoves)) (.binary (.refl a) hregroups),
      .product ha hsigned⟩

theorem Row.exists_neg {p : Expr α → Prop} {e : Expr α} (h : Row p e) :
    ∃ e', Regroups powers (unary .neg e) e' ∧ Row p e' := by
  induction h with
  | term h => exact ⟨_, .refl _, .term (.neg h)⟩
  | @product a b _ hb ih =>
    obtain ⟨a', hregroups, hrow⟩ := ih
    exact ⟨_, .trans (.rule (.sign a b)) (.binary hregroups (.refl b)), .product hrow hb⟩

theorem Row.exists_mul {p : Expr α → Prop} {a b : Expr α} (ha : Row p a) (hb : Row p b) :
    ∃ e', Regroups powers (binary .mul a b) e' ∧ Row p e' := by
  induction hb with
  | term hb => exact ⟨_, .refl _, .product ha hb⟩
  | @product x y _ hy ih =>
    obtain ⟨e', hregroups, hrow⟩ := ih
    exact ⟨_, .trans (.rule (.product a x y)) (.binary hregroups (.refl y)), .product hrow hy⟩

/-- An expression and how it looks: a grouping of its own that its formula shows. -/
structure Regrouped (powers : Prop) (e e' : Expr α) : Prop where
  regroups : Regroups powers e e'
  row : Row Formed e'
  /-- What looks like a factor is one. -/
  factor : ¬Composite e → Factor Formed e'

theorem Regrouped.of_factor {e e' : Expr α} (hregroups : Regroups powers e e')
    (h : Factor Formed e') : Regrouped powers e e' :=
  ⟨hregroups, .term (.factor h), fun _ ↦ h⟩

theorem Regrouped.exists_on {m : Mark α} {e e' : Expr α} (h : Regrouped powers e e')
    (hm : m.Holds Formed) (hmoves : m.Moves powers ∨ ¬Composite e) :
    ∃ e'', Regrouped powers (m.on e) e'' := by
  by_cases hcomposite : Composite e
  · obtain ⟨e'', hregroups, hrow⟩ :=
      h.row.exists_on hm (hmoves.resolve_right (not_not_intro hcomposite))
    exact ⟨e'', h.regroups.on.trans hregroups, hrow, fun hno ↦ absurd (.mark hcomposite) hno⟩
  · exact ⟨_, .of_factor h.regroups.on (.mark (h.factor hcomposite) hm)⟩

theorem exists_arguments {args : List (Expr α)} (h : ∀ a ∈ args, ∃ a', Regrouped powers a a') :
    ∃ args', (∀ function before, Regroups powers (.call function (before ++ args))
      (.call function (before ++ args'))) ∧ ∀ a ∈ args', Formed a := by
  induction args with
  | nil => exact ⟨[], fun _ _ ↦ .refl _, by simp⟩
  | cons a args ih =>
    obtain ⟨⟨a', ha⟩, hargs⟩ := List.forall_mem_cons.mp h
    obtain ⟨args', hregroups, hformed⟩ := ih hargs
    refine ⟨a' :: args', fun function before ↦ ?_,
      List.forall_mem_cons.mpr ⟨.of_row ha.row, hformed⟩⟩
    have hrest := hregroups function (before ++ [a'])
    rw [List.append_assoc, List.append_assoc] at hrest
    exact .trans (.argument before args ha.regroups) hrest

/-- **Every expression has a grouping that its formula shows.** -/
theorem exists_regrouped {e : Expr α} (h : Symbolic Registry.standard e)
    (hbases : powers ∨ SingleBases e) : ∃ e', Regrouped powers e e' := by
  induction h with
  | ident h => exact ⟨_, .of_factor (.refl _) (.atom (.ident h))⟩
  | @call function args hname _ ih =>
    obtain ⟨args', hregroups, hformed⟩ := exists_arguments fun a ha ↦
      ih a ha (hbases.imp_right fun h ↦ h.part (.argument ha .here))
    exact ⟨_, .of_factor (hregroups function []) (.atom (.bracketed (.call hname hformed)))⟩
  | attach hunit hu _ ih =>
    obtain ⟨e', he⟩ := ih (hbases.imp_right fun h ↦ h.part (.operand List.mem_cons_self .here))
    exact he.exists_on (m := .unit _ _) ⟨_, hunit, hu, rfl⟩ (.inl trivial)
  | neg _ ih =>
    obtain ⟨e', he⟩ := ih (hbases.imp_right fun h ↦ h.part (.operand List.mem_cons_self .here))
    obtain ⟨e'', hregroups, hrow⟩ := he.row.exists_neg
    exact ⟨e'', he.regroups.unary.trans hregroups, hrow, fun hno ↦ absurd (.sign _) hno⟩
  | @binary op a b harity _ _ iha ihb =>
    obtain ⟨a', ha⟩ := iha (hbases.imp_right fun h ↦ h.part (.operand List.mem_cons_self .here))
    obtain ⟨b', hb⟩ := ihb (hbases.imp_right fun h ↦ h.part (.operand (by simp) .here))
    have hpair (k : Pair) : ∃ e', Regrouped powers (Expr.binary k.operator a b) e' :=
      ⟨_, .of_factor (.binary ha.regroups hb.regroups)
        (.atom (.bracketed (.pair k (.of_row ha.row) (.of_row hb.row))))⟩
    cases op with
    | add => exact hpair .sum
    | sub => exact hpair .difference
    | div => exact hpair .quotient
    | mul =>
      obtain ⟨e', hregroups, hrow⟩ := ha.row.exists_mul hb.row
      exact ⟨e', .trans (.binary ha.regroups hb.regroups) hregroups, hrow,
        fun hno ↦ absurd (.product a b) hno⟩
    | pow =>
      obtain ⟨e', he⟩ := ha.exists_on (m := .power b') (Formed.of_row hb.row)
        (hbases.imp_right fun h ↦ h a b .here)
      exact ⟨e', (Regroups.binary (.refl a) hb.regroups).trans he.regroups, he.row, fun hno ↦
        he.factor fun hcomposite ↦
        hno (.mark (m := .power b) (composite_pow hcomposite))⟩
    | neg => cases harity
    | attach => cases harity

/-- **Expressions with one formula differ in nothing but grouping.** -/
theorem regroups_of_formula_eq {a b : Expr α} (ha : Symbolic Registry.standard a)
    (hb : Symbolic Registry.standard b) (hbases : powers ∨ SingleBases a ∧ SingleBases b)
    (h : formula a = formula b) : Regroups powers a b := by
  obtain ⟨a', ha'⟩ := exists_regrouped ha (hbases.imp_right And.left)
  obtain ⟨b', hb'⟩ := exists_regrouped hb (hbases.imp_right And.right)
  have hformula : formula a' ++ [] = formula b' ++ [] := by
    rw [← formula_eq_of_regroups ha'.regroups, ← formula_eq_of_regroups hb'.regroups, h]
  obtain ⟨rfl, -⟩ :=
    (Formed.of_row ha'.row).read (.of_row hb'.row) (.inl rfl) (.inl rfl) hformula
  exact ha'.regroups.trans hb'.regroups.symm

/-! ## Expressions that are grouped as they look -/

/-- Nothing in the expression could be grouped anew. -/
def Grouped (e : Expr α) : Prop :=
  ∀ x y, Rule True x y → ¬Occurs x e

theorem Grouped.part {x e : Expr α} (h : Grouped e) (hx : Occurs x e) : Grouped x :=
  fun y z hrule hy ↦ h y z hrule (hy.trans hx)

/-- A term that is no product. -/
theorem Row.signed {p : Expr α → Prop} {e : Expr α} (h : Row p e)
    (hno : ∀ a b, e ≠ binary .mul a b) : Signed p e := by
  cases h with
  | term h => exact h
  | product _ _ => exact absurd rfl (hno _ _)

theorem Row.factor {p : Expr α → Prop} {e : Expr α} (h : Row p e)
    (hproduct : ∀ a b, e ≠ binary .mul a b) (hsign : ∀ a, e ≠ unary .neg a) : Factor p e := by
  cases h.signed hproduct with
  | factor h => exact h
  | neg _ => exact absurd rfl (hsign _)

theorem Grouped.factor {m : Mark α} {e : Expr α} (h : Grouped (m.on e)) (hrow : Row Formed e) :
    Factor Formed e := by
  have hmoves : m.Moves True := by cases m <;> trivial
  refine hrow.factor ?_ ?_
  · rintro a b rfl
    exact h _ _ (.markProduct a b hmoves) .here
  · rintro a rfl
    exact h _ _ (.markSign a hmoves) .here

theorem Grouped.row {e : Expr α} (h : Grouped e) (he : Symbolic Registry.standard e) :
    Row Formed e := by
  induction he with
  | ident hname => exact .term (.factor (.atom (.ident hname)))
  | call hname _ ih =>
    exact .term (.factor (.atom (.bracketed (.call hname fun a ha ↦
      .of_row (ih a ha (h.part (.argument ha .here)))))))
  | @attach unit u e hunit hu _ ih =>
    have hrow := ih (h.part (.operand List.mem_cons_self .here))
    have hfactor := Grouped.factor (m := .unit u unit.label) h hrow
    exact .term (.factor (.mark (m := .unit u unit.label) hfactor ⟨unit, hunit, hu, rfl⟩))
  | @neg e _ ih =>
    have hrow := ih (h.part (.operand List.mem_cons_self .here))
    refine .term (.neg (hrow.signed ?_))
    rintro a b rfl
    exact h _ _ (.sign a b) .here
  | @binary op a b harity _ _ iha ihb =>
    have ha := iha (h.part (.operand List.mem_cons_self .here))
    have hb := ihb (h.part (.operand (by simp) .here))
    have hpair (k : Pair) : Row Formed (Expr.binary k.operator a b) :=
      .term (.factor (.atom (.bracketed (.pair k (.of_row ha) (.of_row hb)))))
    cases op with
    | add => exact hpair .sum
    | sub => exact hpair .difference
    | div => exact hpair .quotient
    | mul =>
      refine .product ha (hb.signed ?_)
      rintro x y rfl
      exact h _ _ (.product a x y) .here
    | pow =>
      have hfactor := Grouped.factor (m := .power b) h ha
      exact .term (.factor (.mark (m := .power b) hfactor (Formed.of_row hb)))
    | neg => cases harity
    | attach => cases harity

/-- **The formula of a grouped expression shows its tree.** -/
theorem Grouped.eq_of_formula_eq {a b : Expr α} (ha : Grouped a) (hb : Grouped b)
    (ha' : Symbolic Registry.standard a) (hb' : Symbolic Registry.standard b)
    (h : formula a = formula b) : a = b :=
  (Formed.read (.of_row (ha.row ha')) (.of_row (hb.row hb')) (.inl rfl) (.inl rfl)
    (congrArg (· ++ []) h)).1

/-- **What a formula shows of an expression.**  Of expressions that are read from texts without
numbers, all of which have a formula, two have the same one exactly if they differ in nothing but
grouping: in how products, signs, units and powers in a row are put together.  Where no power has
a base that looks like more than a factor, powers have no part in that.  And expressions in which
nothing could be grouped anew have the same value in every scope, if they have one formula. -/
theorem expr_eq_iff_regroups (f : Format α) {text₁ text₂ : String} {e₁ e₂ : Expr α}
    (h₁ : ofText Registry.standard text₁ = .ok e₁) (h₂ : ofText Registry.standard text₂ = .ok e₂)
    (hleaves₁ : Unnumbered e₁) (hleaves₂ : Unnumbered e₂) :
    (∃ s, expr f e₁ = .ok s) ∧
    (expr f e₁ = expr f e₂ ↔ Regroups True e₁ e₂) ∧
    (SingleBases e₁ → SingleBases e₂ → (expr f e₁ = expr f e₂ ↔ Regroups False e₁ e₂)) ∧
    (Grouped e₁ → Grouped e₂ → expr f e₁ = expr f e₂ → ∀ (scope : Scope α) (q₁ q₂ : Quantity α),
      eval scope e₁ = .ok q₁ → eval scope e₂ = .ok q₂ → q₁.dim = q₂.dim ∧ q₁ = q₂) := by
  have hs₁ := symbolic_of_ofText h₁ hleaves₁
  have hs₂ := symbolic_of_ofText h₂ hleaves₂
  have hiff : expr f e₁ = expr f e₂ ↔ formula e₁ = formula e₂ := by
    rw [expr_eq_formula f hs₁, expr_eq_formula f hs₂, Except.ok.injEq, String.ofList_inj]
  refine ⟨⟨_, expr_eq_formula f hs₁⟩, ?_, fun hb₁ hb₂ ↦ ?_,
    fun hg₁ hg₂ heq scope q₁ q₂ hq₁ hq₂ ↦ ?_⟩
  · exact hiff.trans ⟨regroups_of_formula_eq hs₁ hs₂ (.inl trivial), formula_eq_of_regroups⟩
  · exact hiff.trans
      ⟨regroups_of_formula_eq hs₁ hs₂ (.inr ⟨hb₁, hb₂⟩), formula_eq_of_regroups⟩
  · obtain rfl := hg₁.eq_of_formula_eq hg₂ hs₁ hs₂ (hiff.mp heq)
    obtain rfl := Except.ok.inj (hq₁.symm.trans hq₂)
    exact ⟨rfl, rfl⟩

/-- `a * (b * c)` and `a * b * c` have one formula, with no power in the way, and the latter is
grouped as it looks. -/
theorem expr_eq_iff_regroups_product :
    ∃ e₁ e₂ : Expr Float, ofText Registry.standard "a*(b*c)" = .ok e₁ ∧
      ofText Registry.standard "a*b*c" = .ok e₂ ∧ e₁ ≠ e₂ ∧
      expr ⟨none, 3, false⟩ e₁ = expr ⟨none, 3, false⟩ e₂ ∧
      ∀ (scope : Scope Float) (q₁ q₂ : Quantity Float),
        eval scope e₂ = .ok q₁ → eval scope e₂ = .ok q₂ → q₁.dim = q₂.dim ∧ q₁ = q₂ := by
  let e₁ : Expr Float := binary .mul (ident "a") (binary .mul (ident "b") (ident "c"))
  let e₂ : Expr Float := binary .mul (binary .mul (ident "a") (ident "b")) (ident "c")
  have h₁ (r : Registry Float) : ofText r "a*(b*c)" = .ok e₁ :=
    ofText_eq_ok.mpr ⟨[⟨.name, "a", 0, false⟩, ⟨.symbol, "*", 1, false⟩, ⟨.symbol, "(", 2, false⟩,
      ⟨.name, "b", 3, false⟩, ⟨.symbol, "*", 4, false⟩, ⟨.name, "c", 5, false⟩,
      ⟨.symbol, ")", 6, false⟩, ⟨.stop, "", 7, false⟩], rfl, rfl⟩
  have h₂ (r : Registry Float) : ofText r "a*b*c" = .ok e₂ :=
    ofText_eq_ok.mpr ⟨[⟨.name, "a", 0, false⟩, ⟨.symbol, "*", 1, false⟩, ⟨.name, "b", 2, false⟩,
      ⟨.symbol, "*", 3, false⟩, ⟨.name, "c", 4, false⟩, ⟨.stop, "", 5, false⟩], rfl, rfl⟩
  have hleaves₁ : Unnumbered e₁ := fun q ↦ by
    simp only [e₁, occurs_binary, occurs_ident]
    simp [binary]
  have hleaves₂ : Unnumbered e₂ := fun q ↦ by
    simp only [e₂, occurs_binary, occurs_ident]
    simp [binary]
  have hbases₁ : SingleBases e₁ := fun x y hocc ↦ by
    simp only [e₁, occurs_binary, occurs_ident] at hocc
    simp [binary] at hocc
  have hbases₂ : SingleBases e₂ := fun x y hocc ↦ by
    simp only [e₂, occurs_binary, occurs_ident] at hocc
    simp [binary] at hocc
  have hgrouped : Grouped e₂ := fun x y hrule hocc ↦ by
    simp only [e₂, occurs_binary, occurs_ident] at hocc
    cases hrule with
    | product => simp [binary] at hocc
    | sign => simp [unary, binary] at hocc
    | @markSign m _ _ => cases m <;> simp [Mark.on, unary, binary] at hocc
    | @markProduct m _ _ _ => cases m <;> simp [Mark.on, unary, binary] at hocc
  obtain ⟨-, -, hiff, -⟩ :=
    expr_eq_iff_regroups (⟨none, 3, false⟩ : Format Float) (h₁ _) (h₂ _) hleaves₁ hleaves₂
  obtain ⟨-, -, -, hvalue⟩ :=
    expr_eq_iff_regroups (⟨none, 3, false⟩ : Format Float) (h₂ _) (h₂ _) hleaves₂ hleaves₂
  refine ⟨e₁, e₂, h₁ _, h₂ _, by simp [e₁, e₂, binary], (hiff hbases₁ hbases₂).mpr ?_,
    hvalue hgrouped hgrouped rfl⟩
  exact .rule (.product (ident "a") (ident "b") (ident "c"))

/-- The power of a product looks like the product of a power: with a metre for `a`, one for `b` and
two for `c`, `(a * b) ^ c` is an area and `a * b ^ c` is a length. -/
theorem exists_formula_of_two_values :
    ∃ (e₁ e₂ : Expr Float) (scope : Scope Float) (q₁ q₂ : Quantity Float),
      ofText Registry.standard "(a*b)^c" = .ok e₁ ∧ ofText Registry.standard "a*b^c" = .ok e₂ ∧
      Unnumbered e₁ ∧ Unnumbered e₂ ∧ (∀ f, ∃ s, expr f e₁ = .ok s ∧ expr f e₂ = .ok s) ∧
      eval scope e₁ = .ok q₁ ∧ eval scope e₂ = .ok q₂ ∧ q₁.dim ≠ q₂.dim := by
  let e₁ : Expr Float := binary .pow (binary .mul (ident "a") (ident "b")) (ident "c")
  let e₂ : Expr Float := binary .mul (ident "a") (binary .pow (ident "b") (ident "c"))
  let scope : Scope Float :=
    ⟨[("a", ⟨1, .decimal (.base .length) 0⟩), ("b", .ofScalar 1), ("c", .ofScalar 2)]⟩
  have h₁ (r : Registry Float) : ofText r "(a*b)^c" = .ok e₁ :=
    ofText_eq_ok.mpr ⟨[⟨.symbol, "(", 0, false⟩, ⟨.name, "a", 1, false⟩, ⟨.symbol, "*", 2, false⟩,
      ⟨.name, "b", 3, false⟩, ⟨.symbol, ")", 4, false⟩, ⟨.symbol, "^", 5, false⟩,
      ⟨.name, "c", 6, false⟩, ⟨.stop, "", 7, false⟩], rfl, rfl⟩
  have h₂ (r : Registry Float) : ofText r "a*b^c" = .ok e₂ :=
    ofText_eq_ok.mpr ⟨[⟨.name, "a", 0, false⟩, ⟨.symbol, "*", 1, false⟩, ⟨.name, "b", 2, false⟩,
      ⟨.symbol, "^", 3, false⟩, ⟨.name, "c", 4, false⟩, ⟨.stop, "", 5, false⟩], rfl, rfl⟩
  have hleaves₁ : Unnumbered e₁ := fun q ↦ by
    simp only [e₁, occurs_binary, occurs_ident]
    simp [binary]
  have hleaves₂ : Unnumbered e₂ := fun q ↦ by
    simp only [e₂, occurs_binary, occurs_ident]
    simp [binary]
  have hregroups : Regroups True e₁ e₂ :=
    .rule (.markProduct (m := .power (ident "c")) (ident "a") (ident "b") trivial)
  have hsame (f : Format Float) : expr f e₂ = expr f e₁ := by
    rw [expr_eq_formula f (symbolic_of_ofText (h₁ Registry.standard) hleaves₁),
      expr_eq_formula f (symbolic_of_ofText (h₂ Registry.standard) hleaves₂),
      formula_eq_of_regroups hregroups]
  have hvalue {e : Expr Float} {d : Dimension}
      (h : (eval scope e).toOption.map Quantity.dim = some d) :
      ∃ q, eval scope e = .ok q ∧ q.dim = d := by
    cases he : eval scope e with
    | ok q =>
      rw [he] at h
      exact ⟨q, rfl, Option.some.inj h⟩
    | error _ =>
      rw [he] at h
      cases h
  obtain ⟨q₁, hq₁, hdim₁⟩ : ∃ q, eval scope e₁ = .ok q ∧ q.dim = (Dimension.base .length).pow 2 :=
    hvalue (by decide +kernel)
  obtain ⟨q₂, hq₂, hdim₂⟩ : ∃ q, eval scope e₂ = .ok q ∧ q.dim = Dimension.base .length :=
    hvalue (by decide +kernel)
  refine ⟨e₁, e₂, scope, q₁, q₂, h₁ _, h₂ _, hleaves₁, hleaves₂, fun f ↦ ?_, hq₁, hq₂, ?_⟩
  · exact ⟨_, expr_eq_formula f (symbolic_of_ofText (h₁ Registry.standard) hleaves₁),
      (hsame f).trans (expr_eq_formula f (symbolic_of_ofText (h₁ Registry.standard) hleaves₁))⟩
  · rw [hdim₁, hdim₂]
    decide +kernel

/-! ## Grouping in exact arithmetic -/

section Exact

variable {scope : Scope Rat}

/-- Products, signs and units may be grouped in any way. -/
theorem reference_rule {a b : Expr Rat} (h : Rule False a b) :
    reference scope a = reference scope b := by
  cases h with
  | product a b c =>
    cases ha : reference scope a <;> cases hb : reference scope b <;>
      cases hc : reference scope c <;> simp [binary, reference, ha, hb, hc, Amount.mul_assoc]
  | sign a b =>
    cases ha : reference scope a <;> cases hb : reference scope b <;>
      simp [binary, unary, reference, ha, hb, Amount.mul, Amount.neg]
  | @markSign m e hmoves =>
    cases m with
    | unit u label =>
      cases he : reference scope e <;>
        simp [Mark.on, unary, reference, he, Amount.mul, Amount.neg]
    | power _ => exact hmoves.elim
  | @markProduct m a b hmoves =>
    cases m with
    | unit u label =>
      cases ha : reference scope a <;> cases hb : reference scope b <;>
        simp [Mark.on, binary, unary, reference, ha, hb, Amount.mul_assoc]
    | power _ => exact hmoves.elim

theorem reference_operand {op : Operator Rat} {before after : List (Expr Rat)} {a b : Expr Rat}
    (h : reference scope a = reference scope b) :
    reference scope (.apply op (before ++ a :: after)) =
      reference scope (.apply op (before ++ b :: after)) := by
  rcases before with _ | ⟨x, _ | ⟨y, before⟩⟩ <;> rcases after with _ | ⟨z, _ | ⟨w, after⟩⟩ <;>
    cases op <;> simp [reference, h]

/-- **Grouping that leaves powers alone does not change amounts.** -/
theorem reference_eq_of_regroups (scope : Scope Rat) {a b : Expr Rat} (h : Regroups False a b) :
    reference scope a = reference scope b := by
  induction h with
  | rule h => exact reference_rule h
  | argument _ _ _ _ => simp only [reference]
  | operand _ _ _ ih => exact reference_operand ih
  | refl _ => rfl
  | symm _ ih => exact ih.symm
  | trans _ _ ih₁ ih₂ => exact ih₁.trans ih₂

/-- **In exact arithmetic one formula means one amount**, if every power is one of a single factor:
whatever two expressions of plain dimensional arithmetic with one formula come to is the same. -/
theorem amount_eq_of_expr_eq {f : Format Rat} {text₁ text₂ : String} {e₁ e₂ : Expr Rat}
    (h₁ : ofText Registry.standard text₁ = .ok e₁) (h₂ : ofText Registry.standard text₂ = .ok e₂)
    (hleaves₁ : Unnumbered e₁) (hleaves₂ : Unnumbered e₂) (hbases₁ : SingleBases e₁)
    (hbases₂ : SingleBases e₂) (heq : expr f e₁ = expr f e₂) (hplain₁ : Plain scope e₁)
    (hplain₂ : Plain scope e₂) {q₁ q₂ : Quantity Rat} (hq₁ : eval scope e₁ = .ok q₁)
    (hq₂ : eval scope e₂ = .ok q₂) : q₁.amount = q₂.amount := by
  have hs₁ := symbolic_of_ofText h₁ hleaves₁
  have hs₂ := symbolic_of_ofText h₂ hleaves₂
  rw [expr_eq_formula f hs₁, expr_eq_formula f hs₂, Except.ok.injEq, String.ofList_inj] at heq
  have hregroups : Regroups False e₁ e₂ :=
    regroups_of_formula_eq hs₁ hs₂ (.inr ⟨hbases₁, hbases₂⟩) heq
  have hamount {e : Expr Rat} {q : Quantity Rat} (hplain : Plain scope e)
      (hq : eval scope e = .ok q) : reference scope e = .ok q.amount := by
    have hagrees := eval_agrees hplain
    rw [hq] at hagrees
    generalize reference scope e = x at hagrees
    cases hagrees with
    | ok => rfl
  have hsame := reference_eq_of_regroups scope hregroups
  rw [hamount hplain₁ hq₁, hamount hplain₂ hq₂] at hsame
  exact Except.ok.inj hsame

end Exact

end Typeset
end Mensura
