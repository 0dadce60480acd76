import Mensura.Proofs.Expr.Symbolic
import Mensura.Proofs.Registry.Spelling
import Mensura.Typeset.Expr

/-!
# Formulas and their pieces

No format has a say in the formula of an expression without numbers: `formula` is its text,
character by character (`expr_eq_formula`).

Its pieces are names and commands, which are read from the front of a formula in one way
(`name_read`, `opening_read`), units and powers behind a factor (`Mark`), and the brackets that
sums, differences and quotients bring for their operands (`Pair`).
-/

set_option autoImplicit false

namespace Mensura
namespace Typeset

open Mensura.Expr

variable {α : Type} [Scalar α]

/-! ## Formulas -/

/-- How a call begins. -/
def opening (function : String) : List Char :=
  if function = "abs" then "\\left|".toList
  else
    ((functionCommands.lookup function).getD ("\\operatorname" ++ group function)).toList ++ ['(']

/-- How a call ends. -/
def closing (function : String) : List Char :=
  if function = "abs" then "\\right|".toList else [')']

/-- Arguments with commas between them. -/
def commas : List (List Char) → List Char :=
  [',', ' '].intercalate

/-- The sign of a product. -/
def times : List Char :=
  [' ', '\\', 't', 'i', 'm', 'e', 's', ' ']

/-- The command of a fraction. -/
def fraction : List Char :=
  ['\\', 'f', 'r', 'a', 'c']

/-- An operator applied to operands. -/
def applied : Operator α → List (List Char) → List Char
  | .attach _ label, a :: _ => a ++ '\\' :: ' ' :: label.toList
  | .neg, a :: _ => '-' :: a
  | .add, [a, b] => '(' :: (a ++ ' ' :: '+' :: ' ' :: (b ++ [')']))
  | .sub, [a, b] => '(' :: (a ++ ' ' :: '-' :: ' ' :: (b ++ [')']))
  | .mul, [a, b] => a ++ times ++ b
  | .div, [a, b] => fraction ++ '{' :: (a ++ '}' :: '{' :: (b ++ ['}']))
  | .pow, [a, b] => a ++ '^' :: '{' :: (b ++ ['}'])
  | _, _ => []

mutual

/-- The formula of an expression without numbers. -/
def formula : Expr α → List Char
  | .literal _ => []
  | .ident name => name.toList
  | .call function args => opening function ++ (commas (formulas args) ++ closing function)
  | .apply op operands => applied op (formulas operands)

/-- The formulas of several expressions without numbers. -/
def formulas : List (Expr α) → List (List Char)
  | [] => []
  | e :: rest => formula e :: formulas rest

end

theorem formulas_eq_map (es : List (Expr α)) : formulas es = es.map formula := by
  induction es with
  | nil => rfl
  | cons e es ih => rw [formulas, ih, List.map_cons]

theorem call_toList (function : String) (args : List String) : (call function args).toList =
    opening function ++ (commas (args.map String.toList) ++ closing function) := by
  rw [call, opening, closing, commas]
  split
  · simp only [String.toList_append, String.toList_intercalate, List.append_assoc]
    rfl
  · simp only [String.toList_append, String.toList_intercalate, List.append_assoc]
    rfl

theorem exprs_eq_ok {f : Format α} {es : List (Expr α)}
    (h : ∀ e ∈ es, expr f e = .ok (String.ofList (formula e))) :
    exprs f es = .ok (es.map fun e ↦ String.ofList (formula e)) := by
  induction es with
  | nil => rfl
  | cons e es ih =>
    rw [exprs, h e List.mem_cons_self, ok_bind, ih fun x hx ↦ h x (List.mem_cons_of_mem _ hx)]
    rfl

/-- **The formula is what is typeset.** -/
theorem expr_eq_formula {r : Registry α} (f : Format α) {e : Expr α} (h : Symbolic r e) :
    expr f e = .ok (String.ofList (formula e)) := by
  induction h with
  | ident _ => rw [expr, formula, String.ofList_toList]
  | call _ _ ih =>
    rw [expr, exprs_eq_ok ih, formula, formulas_eq_map]
    simp only [ok_bind, pure_eq_ok, Except.ok.injEq]
    rw [← String.toList_inj, call_toList, String.toList_ofList, List.map_map]
    simp [Function.comp_def]
  | attach _ _ _ ih =>
    rw [unary, expr, exprs_eq_ok (by simpa using ih), formula]
    simp [operator, applied, formulas, ← String.toList_inj]
  | neg _ ih =>
    rw [unary, expr, exprs_eq_ok (by simpa using ih), formula]
    simp [operator, applied, formulas]
  | @binary op a b harity _ _ iha ihb =>
    rw [binary, expr, exprs_eq_ok (by simpa using ⟨iha, ihb⟩), formula]
    cases op with
    | neg => cases harity
    | attach => cases harity
    | _ => simp [operator, applied, formulas, frac, group, times, fraction, ← String.toList_inj]

/-! ## Names and commands -/

/-- No name goes on here. -/
def Breaks (s : List Char) : Prop :=
  ∀ c ∈ s.head?, Text.isWordChar c = false

theorem breaks_cons {c : Char} {s : List Char} (h : Text.isWordChar c = false) : Breaks (c :: s) :=
  fun d hd ↦ by
    obtain rfl : c = d := by simpa using hd
    exact h

theorem breaks_bracket {c : Char} {s : List Char} (h : c ∈ brackets) : Breaks (c :: s) :=
  breaks_cons (not_isWordChar_of_mem (List.mem_append_left _ h))

/-- **A name is read from a formula in one way.** -/
theorem name_read {n m s t : List Char} (hn : Token.IsName n) (hm : Token.IsName m)
    (hs : Breaks s) (ht : Breaks t) (h : n ++ s = m ++ t) : n = m ∧ s = t := by
  have hrun {n s : List Char} (hn : Token.IsName n) (hs : Breaks s) :
      (n.tail ++ s).takeWhile Text.isWordChar = n.tail := by
    rw [Text.takeWhile_append_of_head hs, hn.takeWhile_tail]
  have hrunn := hrun hn hs
  have hrunm := hrun hm ht
  obtain ⟨c, n, rfl⟩ := hn.exists_cons
  obtain ⟨d, m, rfl⟩ := hm.exists_cons
  rw [List.cons_append, List.cons_append] at h
  obtain ⟨rfl, htail⟩ := List.cons.inj h
  rw [List.tail_cons] at hrunn hrunm
  obtain rfl : n = m := by rw [← hrunn, htail, hrunm]
  exact ⟨rfl, List.append_cancel_left htail⟩

theorem brace_not_mem_name {n : List Char} (h : Token.IsName n) : '}' ∉ n := by
  have hstarts := h.starts
  have htail := h.isWordChar_of_mem_tail
  obtain ⟨c, n, rfl⟩ := h.exists_cons
  rw [List.mem_cons, not_or]
  constructor
  · rintro rfl
    exact absurd hstarts (by simp [Token.startsName, show Text.isLetter '}' = false by decide])
  · exact fun hmem ↦ absurd (htail _ hmem) (by decide)

theorem isName_fraction : Token.IsName fraction :=
  ⟨by decide, by decide, by decide⟩

theorem isName_left : Token.IsName "\\left".toList :=
  ⟨by decide, by decide, by decide⟩

theorem isName_right : Token.IsName "\\right".toList :=
  ⟨by decide, by decide, by decide⟩

theorem isName_operatorname : Token.IsName "\\operatorname".toList :=
  ⟨by decide, by decide, by decide⟩

theorem isName_of_mem_functionCommands {x : String × String} (h : x ∈ functionCommands) :
    Token.IsName x.2.toList := by
  have hall : ∀ x ∈ functionCommands, Token.startsName x.2.toList = true ∧
      Token.startsNumber x.2.toList = false ∧
      1 + (x.2.toList.tail.takeWhile Text.isWordChar).length = x.2.toList.length := by
    decide +kernel
  obtain ⟨hstarts, hnumber, hlength⟩ := hall x h
  exact ⟨hstarts, hnumber, hlength⟩

/-- How a call begins: with a name, a bracket, and perhaps more. -/
inductive Opening (function : String) (name : List Char) (bracket : Char) (rest : List Char) : Prop
  | bars : function = "abs" → name = "\\left".toList → bracket = '|' → rest = [] →
    Opening function name bracket rest
  | command {command : String} : (function, command) ∈ functionCommands → name = command.toList →
    bracket = '(' → rest = [] → Opening function name bracket rest
  | operatorname : name = "\\operatorname".toList → bracket = '{' →
    rest = function.toList ++ ['}', '('] → Opening function name bracket rest

theorem exists_opening (function : String) : ∃ name bracket rest,
    opening function = name ++ bracket :: rest ∧ Opening function name bracket rest := by
  by_cases habs : function = "abs"
  · exact ⟨_, '|', [], by rw [opening, if_pos habs]; rfl, .bars habs rfl rfl rfl⟩
  cases hlookup : functionCommands.lookup function with
  | some command =>
    exact ⟨command.toList, '(', [], by rw [opening, if_neg habs, hlookup]; rfl,
      .command (Registry.mem_of_lookup hlookup) rfl rfl rfl⟩
  | none =>
    refine ⟨"\\operatorname".toList, '{', function.toList ++ ['}', '('], ?_,
      .operatorname rfl rfl rfl⟩
    rw [opening, if_neg habs, hlookup, Option.getD_none, group]
    simp only [String.toList_append, List.append_assoc]
    rfl

section Opening

variable {function : String} {name : List Char} {bracket : Char} {rest : List Char}

theorem Opening.isName (h : Opening function name bracket rest) : Token.IsName name := by
  cases h with
  | bars _ hname => exact hname ▸ isName_left
  | command hmem hname => exact hname ▸ isName_of_mem_functionCommands hmem
  | operatorname hname => exact hname ▸ isName_operatorname

theorem Opening.bracket_mem (h : Opening function name bracket rest) :
    bracket ∈ brackets := by
  cases h with
  | bars _ _ hbracket => simp [hbracket, brackets]
  | command _ _ hbracket => simp [hbracket, brackets]
  | operatorname _ hbracket => simp [hbracket, brackets]

theorem Opening.breaks (h : Opening function name bracket rest) (s : List Char) :
    Breaks (bracket :: s) :=
  breaks_bracket h.bracket_mem

/-- No function has the command of a fraction, nor one that closes a bracket. -/
theorem Opening.name_ne (h : Opening function name bracket rest) :
    name ≠ fraction ∧ name ≠ "\\right".toList := by
  cases h with
  | bars _ hname => exact hname ▸ by decide
  | command hmem hname =>
    have hall : ∀ x ∈ functionCommands,
        x.2.toList ≠ fraction ∧ x.2.toList ≠ "\\right".toList := by decide +kernel
    exact hname ▸ hall _ hmem
  | operatorname hname => exact hname ▸ by decide

end Opening

/-- **The function of a call is read from its formula in one way.** -/
theorem opening_read {f g : String} {s t : List Char} (hf : Token.IsName f.toList)
    (hg : Token.IsName g.toList) (h : opening f ++ s = opening g ++ t) : f = g ∧ s = t := by
  obtain ⟨name, bracket, rest, hopen, hf'⟩ := exists_opening f
  obtain ⟨name', bracket', rest', hopen', hg'⟩ := exists_opening g
  rw [hopen, hopen', List.append_assoc, List.append_assoc, List.cons_append,
    List.cons_append] at h
  obtain ⟨hname, h⟩ := name_read hf'.isName hg'.isName (hf'.breaks _) (hg'.breaks _) h
  obtain ⟨hbracket, h⟩ := List.cons.inj h
  -- The bracket tells the ways to begin apart.
  rcases hf' with ⟨hf', _, hb, rfl⟩ | ⟨hmem, hn, hb, rfl⟩ | ⟨_, hb, rfl⟩ <;>
    rcases hg' with ⟨hg', _, hb', rfl⟩ | ⟨hmem', hn', hb', rfl⟩ | ⟨_, hb', rfl⟩ <;>
    try exact absurd (hb.symm.trans (hbracket.trans hb')) (by decide)
  · exact ⟨hf'.trans hg'.symm, h⟩
  · have hinjective : ∀ x ∈ functionCommands, ∀ y ∈ functionCommands, x.2 = y.2 → x.1 = y.1 := by
      decide +kernel
    have hcommand := String.toList_inj.mp (hn.symm.trans (hname.trans hn'))
    exact ⟨hinjective _ hmem _ hmem' hcommand, h⟩
  · simp only [List.append_assoc, List.cons_append] at h
    obtain ⟨hfunction, h⟩ :=
      Text.append_cons_read (brace_not_mem_name hf) (brace_not_mem_name hg) h
    exact ⟨String.toList_inj.mp hfunction, by simpa using h⟩

/-! ## Marks -/

/-- A unit or a power, as it stands behind a factor. -/
inductive Mark (α : Type) [Scalar α]
  | unit (u : PhysUnit α) (label : String)
  | power (exponent : Expr α)

/-- An expression with a mark behind it. -/
def Mark.on : Mark α → Expr α → Expr α
  | unit u label, e => unary (.attach u label) e
  | power exponent, e => binary .pow e exponent

/-- A mark in a formula. -/
def Mark.formula : Mark α → List Char
  | unit _ label => '\\' :: ' ' :: label.toList
  | power exponent => '^' :: '{' :: (Typeset.formula exponent ++ ['}'])

theorem formula_on (m : Mark α) (e : Expr α) :
    formula (m.on e) = formula e ++ m.formula := by
  cases m <;> rfl

/-- What a mark is made of: a unit that is written with names, or an exponent with a property. -/
def Mark.Holds (p : Expr α → Prop) : Mark α → Prop
  | unit u label => ∃ unit, UnitExpr.Chain unit ∧ Registry.standard.eval unit = .ok u ∧
      label = unit.label
  | power exponent => p exponent

/-! ## Pairs in brackets -/

/-- The operators that bring brackets for their operands. -/
inductive Pair
  | sum | difference | quotient

namespace Pair

/-- The operator of expressions. -/
def operator : Pair → Operator α
  | sum => .add
  | difference => .sub
  | quotient => .div

/-- What stands in front of the first operand. -/
def opening : Pair → List Char
  | sum | difference => ['(']
  | quotient => fraction ++ ['{']

/-- What stands between the operands. -/
def separator : Pair → List Char
  | sum => [' ', '+', ' ']
  | difference => [' ', '-', ' ']
  | quotient => ['}', '{']

/-- What stands behind the second operand. -/
def closing : Pair → List Char
  | sum | difference => [')']
  | quotient => ['}']

end Pair

theorem formula_pair (k : Pair) (a b : Expr α) : formula (binary k.operator a b) =
    k.opening ++ (formula a ++ (k.separator ++ (formula b ++ k.closing))) := by
  cases k with
  | sum => rfl
  | difference => rfl
  | quotient =>
    simp only [binary, formula, formulas, applied, Pair.operator, Pair.opening, Pair.separator,
      Pair.closing, List.append_assoc, List.cons_append, List.nil_append]

end Typeset
end Mensura
