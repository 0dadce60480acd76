import Mensura.Proofs.Expr.Binding
import Mensura.Proofs.Expr.UnitRun
import Mensura.Proofs.UnitExpr.Label

/-!
# Expressions without numbers

An expression read from a text without numbers is made of names: its leaves are identifiers, and its
functions and the parts of its units are called by name (`symbolic_of_ofText`).
-/

set_option autoImplicit false

namespace Mensura

open UnitExpr (IsWord Term Chain)

/-! ## Units behind values -/

theorem Token.IsName.exists_cons {cs : List Char} (h : IsName cs) : ∃ c rest, cs = c :: rest := by
  cases cs with
  | nil => exact absurd h.starts (by simp [startsName])
  | cons c rest => exact ⟨c, rest, rfl⟩

/-- A name goes on with word characters. -/
theorem Token.IsName.takeWhile_tail {cs : List Char} (h : IsName cs) :
    cs.tail.takeWhile Text.isWordChar = cs.tail := by
  have hlength := h.length
  refine (List.takeWhile_prefix _).eq_of_length ?_
  rw [List.length_tail]
  omega

theorem Token.IsName.isWordChar_of_mem_tail {cs : List Char} (h : IsName cs) :
    ∀ c ∈ cs.tail, Text.isWordChar c = true := by
  rw [← h.takeWhile_tail]
  exact Text.mem_takeWhile

/-- A name that does not start with a backslash is a word. -/
theorem Token.IsName.isWord {cs : List Char} (h : IsName cs) (hslash : cs.head? ≠ some '\\') :
    IsWord cs := by
  have htail := h.isWordChar_of_mem_tail
  have hstarts := h.starts
  obtain ⟨c, cs, rfl⟩ := h.exists_cons
  have hc : Text.isLetter c = true ∨ c = '_' := by
    have hne : c ≠ '\\' := by simpa using hslash
    simpa [startsName, hne] using hstarts
  have hword : Text.isWordChar c = true := by
    rcases hc with hc | rfl
    · exact isWordChar_of_isLetter hc
    · decide
  exact ⟨by simp, List.forall_mem_cons.mpr ⟨hword, htail⟩⟩

namespace Expr

variable {α : Type} [Scalar α]

/-- The name tokens are names. -/
def Named (ts : List Token) : Prop :=
  ∀ t ∈ ts, t.kind = .name → Token.IsName t.text.toList

theorem Named.suffix {ts rest : List Token} (h : Named ts) (hrest : rest <:+ ts) : Named rest :=
  fun t ht ↦ h t (hrest.mem ht)

theorem Named.tail {t : Token} {ts : List Token} (h : Named (t :: ts)) : Named ts :=
  h.suffix (List.suffix_cons t ts)

theorem Named.isWord {t : Token} {ts : List Token} (h : Named ts) (ht : t ∈ ts)
    (hname : IsPlainName t) : IsWord t.text.toList :=
  (h t ht hname.kind).isWord hname.plain

theorem IsTerm.term {plan : UnitExpr} {run : List Token} (hnamed : Named run)
    (h : IsTerm plan run) : Term plan := by
  cases h with
  | name ht => exact .name (hnamed.isWord List.mem_cons_self ht)
  | power ht _ _ => exact .pow _ (hnamed.isWord List.mem_cons_self ht)

theorem Spells.chain {plan : UnitExpr} {run : List Token} (hnamed : Named run)
    (h : Spells plan run) : Chain plan := by
  induction h with
  | term hterm => exact .term (hterm.term hnamed)
  | join link column _ hright ih =>
    obtain ⟨hrun, hmore⟩ := List.forall_mem_append.mp hnamed
    have hterm := hright.term (List.forall_mem_append.mp hmore).2
    cases link with
    | beside | times => exact .mul (ih hrun) hterm
    | per => exact .div (ih hrun) hterm

/-- A unit behind a value is a row of names. -/
theorem chain_of_unitExpr {u : UnitExpr} {ts rest : List Token} (hnamed : Named ts)
    (hs : startsUnit ts = true) (h : unitExpr ts = .ok (u, rest)) : Chain u := by
  obtain ⟨run, rfl, hspells, -⟩ := exists_longestRun hs h
  exact hspells.chain (List.forall_mem_append.mp hnamed).1

/-! ## Expressions without numbers -/

/-- An expression made of names. -/
inductive Symbolic (r : Registry α) : Expr α → Prop
  | ident {name : String} : Token.IsName name.toList → Symbolic r (ident name)
  | call {function : String} {args : List (Expr α)} : Token.IsName function.toList →
    (∀ a ∈ args, Symbolic r a) → Symbolic r (call function args)
  | attach {unit : UnitExpr} {u : PhysUnit α} {e : Expr α} : Chain unit → r.eval unit = .ok u →
    Symbolic r e → Symbolic r (unary (.attach u unit.label) e)
  | neg {e : Expr α} : Symbolic r e → Symbolic r (unary .neg e)
  | binary {op : Operator α} {a b : Expr α} : op.arity = 2 → Symbolic r a → Symbolic r b →
    Symbolic r (binary op a b)

/-- Identifiers are the only leaves. -/
def Unnumbered (e : Expr α) : Prop :=
  ∀ q, ¬Occurs (literal q) e

theorem Unnumbered.part {x e : Expr α} (h : Unnumbered e) (hx : Occurs x e) : Unnumbered x :=
  fun q hq ↦ h q (hq.trans hx)

theorem Unnumbered.argument {function : String} {args : List (Expr α)}
    (h : Unnumbered (call function args)) : ∀ a ∈ args, Unnumbered a :=
  fun _ ha ↦ h.part (.argument ha .here)

theorem Unnumbered.operand {op : Operator α} {operands : List (Expr α)}
    (h : Unnumbered (apply op operands)) : ∀ a ∈ operands, Unnumbered a :=
  fun _ ha ↦ h.part (.operand ha .here)

/-- What a part adds is made of names, if it adds no number. -/
def Part.IsSymbolic (r : Registry α) : Part α → Prop
  | .expression _ e => Unnumbered e → Symbolic r e
  | .operand e => Unnumbered e → Symbolic r e
  | .climb _ left e => Unnumbered e → (Unnumbered left → Symbolic r left) → Symbolic r e
  | .arguments es => ∀ e ∈ es, Unnumbered e → Symbolic r e

theorem symbolic_of_derives {r : Registry α} {part : Part α} {ts rest : List Token}
    (h : Derives r part ts rest) : Named ts → part.IsSymbolic r := by
  induction h with
  | expression h₁ _ ih₁ ih₂ =>
    intro hnamed he
    exact ih₂ (hnamed.suffix h₁.suffix) he (ih₁ hnamed)
  | number _ hl =>
    intro _ he
    obtain ⟨q, rfl⟩ := exists_literal_of_literalOf hl
    exact absurd .here (he q)
  | ident hk _ => exact fun hnamed _ ↦ .ident (hnamed _ List.mem_cons_self hk)
  | emptyCall hk _ _ =>
    exact fun hnamed _ ↦ .call (hnamed _ List.mem_cons_self hk) fun a ha ↦ absurd ha (by simp)
  | call hk _ _ _ _ ih =>
    intro hnamed he
    exact .call (hnamed _ List.mem_cons_self hk) fun a ha ↦
      ih hnamed.tail.tail a ha (he.argument a ha)
  | paren _ _ _ ih => exact fun hnamed ↦ ih hnamed.tail
  | minus _ _ ih =>
    exact fun hnamed he ↦ .neg (ih hnamed.tail (he.operand _ List.mem_cons_self))
  | plus _ _ ih => exact fun hnamed ↦ ih hnamed.tail
  | attach hs _ hunit hu _ ih =>
    intro hnamed he hleft
    have hmid := hnamed.suffix ((unitExpr_suffix hunit).trans (drop_one_suffix _))
    exact ih hmid he fun h ↦
      .attach (chain_of_unitExpr hnamed hs hunit) hu (hleft (h.operand _ List.mem_cons_self))
  | operator _ hop _ h₁ _ ih₁ ih₂ =>
    intro hnamed he hleft
    exact ih₂ (hnamed.tail.suffix h₁.suffix) he fun h ↦
      .binary (arity_of_ofToken? hop) (hleft (h.operand _ List.mem_cons_self))
        (ih₁ hnamed.tail (h.operand _ (by simp)))
  | settled _ => exact fun _ he hleft ↦ hleft he
  | lastArgument _ _ ih =>
    intro hnamed e he
    obtain rfl := List.mem_singleton.mp he
    exact ih hnamed
  | moreArguments h₁ _ _ ih₁ ih₂ =>
    intro hnamed e he
    rcases List.mem_cons.mp he with rfl | he
    · exact ih₁ hnamed
    · exact ih₂ (hnamed.suffix h₁.suffix).tail e he

/-- **An expression that is read without numbers is made of names.** -/
theorem symbolic_of_ofText {r : Registry α} {text : String} {e : Expr α}
    (h : ofText r text = .ok e) (he : Unnumbered e) : Symbolic r e := by
  obtain ⟨ts, hscan, hread⟩ := ofText_eq_ok.mp h
  obtain ⟨rest, hd, -⟩ := ofTokens_eq_ok.mp hread
  exact symbolic_of_derives hd (fun t ht hk ↦ Token.isName_of_scan hscan ht hk) he

end Expr
end Mensura
