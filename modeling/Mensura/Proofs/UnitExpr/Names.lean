import Mensura.Proofs.UnitExpr.Reading

/-!
# Names in units

The names in a unit that is read from a text are the lexemes of names in the text, in their order
(`names_of_ofText`); so they are words (`worded_of_ofText`).
-/

set_option autoImplicit false

namespace Mensura
namespace UnitExpr

/-- The names in a unit. -/
def names : UnitExpr → List String
  | name text => [text]
  | pow u _ => u.names
  | mul u v => u.names ++ v.names
  | div u v => u.names ++ v.names

theorem worded_iff {u : UnitExpr} : u.Worded ↔ ∀ text ∈ u.names, IsWord text.toList := by
  induction u with
  | name text => simp [Worded, names]
  | pow u n ih => exact ih
  | mul u v ihu ihv => simp only [Worded, names, List.forall_mem_append, ihu, ihv]
  | div u v ihu ihv => simp only [Worded, names, List.forall_mem_append, ihu, ihv]

/-! ## Names of texts -/

/-- The names among some lexemes. -/
def nameTexts (ls : List Lexeme) : List String :=
  ls.filterMap fun l ↦ if l.kind = .name then some l.text else none

theorem nameTexts_append (ls ms : List Lexeme) :
    nameTexts (ls ++ ms) = nameTexts ls ++ nameTexts ms :=
  List.filterMap_append

theorem nameTexts_cons_symbol (text : String) (ls : List Lexeme) :
    nameTexts (symbol text :: ls) = nameTexts ls :=
  rfl

namespace Grammar

theorem names_of_poweredPlan {base p : UnitExpr} {power : Option Power}
    (h : poweredPlan base power = .ok p) :
    p.names = base.names ++ nameTexts (powerLexemes power) := by
  cases power with
  | none =>
    cases h
    simp [powerLexemes, nameTexts]
  | some x =>
    obtain ⟨n, -, h⟩ := bind_eq_ok.mp h
    cases h
    obtain ⟨sign, integer, inParentheses⟩ := x
    cases inParentheses <;> simp [powerLexemes, Exponent.lexemes, nameTexts, symbol, names]

mutual

/-- The names in the plan of a derivation are those among its lexemes, in order. -/
theorem Term.names_eq : ∀ (d : Term) {p : UnitExpr}, d.plan = .ok p → p.names = nameTexts d.lexemes
  | .of base power, p, h => by
    obtain ⟨e, hbase, hpower⟩ := bind_eq_ok.mp h
    rw [Term.lexemes, nameTexts_append, ← base.names_eq hbase, names_of_poweredPlan hpower]

theorem Factor.names_eq : ∀ (d : Factor) {p : UnitExpr},
    d.plan = .ok p → p.names = nameTexts d.lexemes
  | .name text, p, h => by
    cases h
    rfl
  | .group inner, p, h => by
    rw [Factor.lexemes, nameTexts_cons_symbol, nameTexts_append, ← inner.names_eq h]
    simp [nameTexts, symbol]

theorem Expression.names_eq : ∀ (d : Expression) {p : UnitExpr},
    d.plan = .ok p → p.names = nameTexts d.lexemes
  | .of first more, p, h => by
    obtain ⟨e, hfirst, hmore⟩ := bind_eq_ok.mp h
    rw [Expression.lexemes, nameTexts_append, ← first.names_eq hfirst, more.names_eq hmore]

theorem More.names_eq : ∀ (d : More) {left p : UnitExpr},
    d.planAfter left = .ok p → p.names = left.names ++ nameTexts d.lexemes
  | .done, left, p, h => by
    cases h
    simp [More.lexemes, nameTexts]
  | .next link term more, left, p, h => by
    obtain ⟨e, hterm, hmore⟩ := bind_eq_ok.mp h
    have hjoin : (link.join left e).names = left.names ++ (nameTexts link.lexemes ++ e.names) := by
      cases link <;> rfl
    rw [More.lexemes, nameTexts_append, nameTexts_append, ← term.names_eq hterm,
      more.names_eq hmore, hjoin, List.append_assoc, List.append_assoc]

end

end Grammar

/-- The names in a unit are those in its text. -/
theorem names_of_ofText {text : String} {p : UnitExpr} (h : ofText text = .ok p) :
    ∃ ls, Lexes text.toList ls ∧ p.names = nameTexts ls := by
  by_cases hd : ∃ d, Parses text d
  · obtain ⟨d, hd⟩ := hd
    rw [hd.ofText_eq, liftM_eq_ok] at h
    exact ⟨_, hd.lexes, d.names_eq h⟩
  · rcases ofText_declines (not_exists.mp hd) with ⟨fault, hfault⟩ | ⟨ls, -, l, -, -, hfault⟩
    · rw [hfault] at h
      cases h
    · rw [hfault] at h
      cases h

/-- The names in a unit that is read are words. -/
theorem worded_of_ofText {text : String} {p : UnitExpr} (h : ofText text = .ok p) : p.Worded := by
  obtain ⟨ls, hls, hnames⟩ := names_of_ofText h
  rw [worded_iff, hnames]
  intro name hname
  obtain ⟨l, hl, hkind⟩ := List.mem_filterMap.mp hname
  split at hkind
  · next hname =>
    have hspells := hls.spells l hl
    rw [hname, Option.some.inj hkind] at hspells
    generalize name.toList = cs at hspells
    cases hspells with
    | name hstart hmore =>
      refine ⟨by simp, List.forall_mem_cons.mpr ⟨?_, hmore⟩⟩
      rw [startsName, Bool.and_eq_true] at hstart
      rw [Text.isWordChar, hstart.1, Bool.true_or]
  · cases hkind

end UnitExpr

end Mensura
