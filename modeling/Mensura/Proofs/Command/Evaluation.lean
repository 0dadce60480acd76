import Mensura.Command
import Mensura.Proofs.Document.Entry
import Mensura.Proofs.Document.PrintedLine
import Mensura.Proofs.Typeset.Display
import Mensura.Proofs.Typeset.Shown

/-!
# Expressions on the command line and in documents

The value of an expression can be asked for on the command line, and in a document of one line.
Both read the same expression (`Document.ofText_of_print`) and evaluate it over the constants; but
only a document knows the circle constant as `pi`, which is an alias of its language.  Without that
name the values agree, and the document is rendered if there is a value that can be displayed
(`evaluation_eq_document`).
-/

set_option autoImplicit false

namespace Mensura
namespace Command

open Document (State statementOf render header footer)
open Mensura.Expr (Occurs)

/-- The value of an expression on the command line. -/
def evaluation (expression : String) : Result (Quantity Float) := do
  let e ← Expr.ofText Registry.standard expression
  e.eval Scope.constants

/-- What the command shows is this value. -/
theorem evalText_eq (expression : String) (unit : Option String) :
    evalText expression unit = evaluation expression >>= fun q ↦
      match unit with
      | some u => if u.isEmpty then q.text else q.textIn Registry.standard u
      | none => q.text :=
  (bind_assoc _ _ _).symm

/-- The circle constant has another name on the command line. -/
theorem resolve_pi (q : Quantity Float) : Expr.resolve Scope.constants "pi" ≠ .ok q := by
  have hpi : (Expr.resolve (Scope.constants : Scope Float) "pi").isOk = false := by decide +kernel
  intro h
  rw [h] at hpi
  cases hpi

/-- Without `pi`, names are called in a document as on the command line. -/
theorem eval_initial {e : Expr Float} (h : ¬Occurs (.ident "pi") e) (digits : Nat)
    (scientific : Bool) :
    (e.rename (State.initial digits scientific : State Float).nameOf).eval Scope.constants =
      e.eval Scope.constants := by
  refine Expr.eval_rename fun name hname ↦ ?_
  have hne : name ≠ "pi" := by
    rintro rfl
    exact h hname
  rw [Document.initial_nameOf, Document.called, if_neg hne]

/-- **The command line and a document agree on values.**  Let a text without line ends be a value to
print with ` = ?` behind it.  On the command line it has no value if it holds the name `pi`.
Otherwise its value, or what keeps it from having one, is that in a document.  The document of this
line is rendered exactly if there is a value and it can be displayed, and it shows this value. -/
theorem evaluation_eq_document {E : String} {e : Expr Float} {hint : Option (UnitHint Float)}
    (hline : ∀ c ∈ E.toList, Text.isLineEnd c = false)
    (hread : statementOf (E ++ " = ?") = .ok (.print e hint)) {digits : Nat}
    (hdigits : digits ≤ Typeset.largestPrecision) (scientific : Bool) :
    (Occurs (.ident "pi") e → ∀ q, evaluation E ≠ .ok q) ∧
    (¬Occurs (.ident "pi") e →
      (e.rename (State.initial digits scientific : State Float).nameOf).eval Scope.constants =
        evaluation E ∧
      ((∃ d, render Float digits scientific (E ++ " = ?") = .ok d) ↔
        ∃ q, evaluation E = .ok q ∧ Typeset.Displayable scientific q) ∧
      ∀ d, render Float digits scientific (E ++ " = ?") = .ok d → ∃ q shown result,
        evaluation E = .ok q ∧
        (State.initial digits scientific).evaluated e none = .ok (q, shown, result) ∧
        d.text = header ++ State.formulaLine [shown, result] ++ footer) := by
  obtain ⟨-, htext, -⟩ := Document.ofText_of_print hread
  have hevaluation : evaluation E = e.eval Scope.constants := by
    rw [evaluation, htext, ok_bind]
  have hrender := Document.render_printedLine hread hline digits scientific
  refine ⟨fun hpi q hq ↦ ?_, fun hpi ↦ ?_⟩
  · rw [hevaluation] at hq
    obtain ⟨p, hp⟩ := Expr.exists_resolve_of_eval hq hpi
    exact resolve_pi p hp
  have hvalue := (eval_initial hpi digits scientific).trans hevaluation.symm
  refine ⟨hvalue, ⟨?_, ?_⟩, fun d hd ↦ ?_⟩
  · rintro ⟨d, hd⟩
    obtain ⟨q, shown, result, hevaluated, -⟩ := (hrender d).mp hd
    obtain ⟨hq, -, hresult⟩ := State.evaluated_eq_ok.mp hevaluated
    exact ⟨q, hvalue.symm.trans hq,
      (Typeset.exists_quantity_iff hdigits scientific).mp ⟨result, hresult⟩⟩
  · rintro ⟨q, hq, hdisplay⟩
    have hformula : Typeset.Shown ⟨none, digits, scientific⟩ e := Typeset.shown_of_ofText _ htext
    obtain ⟨shown, hshown⟩ :=
      (Typeset.shown_rename (State.initial digits scientific : State Float).nameOf).mpr hformula
    obtain ⟨result, hresult⟩ := (Typeset.exists_quantity_iff hdigits scientific).mpr hdisplay
    exact ⟨_, (hrender _).mpr ⟨q, shown, result,
      State.evaluated_eq_ok.mpr ⟨hvalue.trans hq, hshown, hresult⟩, rfl⟩⟩
  · obtain ⟨q, shown, result, hevaluated, rfl⟩ := (hrender d).mp hd
    have hq := (State.evaluated_eq_ok.mp hevaluated).1
    exact ⟨q, shown, result, hvalue.symm.trans hq, hevaluated, rfl⟩

/-- `e*e` has a value in both places. -/
theorem evaluation_eq_document_square :
    ∃ q d, evaluation "e*e" = .ok q ∧ render Float 3 false ("e*e" ++ " = ?") = .ok d := by
  have hread : statementOf ("e*e" ++ " = ?") =
      .ok (.print (.binary .mul (.ident "e") (.ident "e")) none : Statement Float) := rfl
  have hpi : ¬Occurs (.ident "pi") (.binary .mul (.ident "e") (.ident "e") : Expr Float) := by
    rw [Expr.occurs_binary, Expr.occurs_ident]
    simp [Expr.binary]
  have hdigits : ((3 : Nat) : Int) ≤ Typeset.largestPrecision := by decide
  obtain ⟨q, hq⟩ := exists_eq_ok (by decide +kernel : (evaluation "e*e").isOk = true)
  have hplain : (evaluation "e*e").toOption.all (·.dim.factors.isEmpty) = true := by
    decide +kernel
  rw [hq] at hplain
  have hfactors : q.dim.factors = [] := List.isEmpty_iff.mp hplain
  have hdisplay : Typeset.Displayable false q :=
    ⟨fun h ↦ absurd h Bool.false_ne_true, absurd hfactors,
      fun _ b p rest h ↦ by simp [hfactors] at h⟩
  have hall : "e*e".toList.all (!Text.isLineEnd ·) = true := by decide +kernel
  have hline : ∀ c ∈ "e*e".toList, Text.isLineEnd c = false :=
    fun c hc ↦ by simpa using List.all_eq_true.mp hall c hc
  obtain ⟨-, hagree⟩ := evaluation_eq_document hline hread hdigits false
  obtain ⟨-, hrendered, -⟩ := hagree hpi
  obtain ⟨d, hd⟩ := hrendered.mpr ⟨q, hq, hdisplay⟩
  exact ⟨q, d, hq, hd⟩

/-- A text that is a value to print with ` = ?` behind it, has no value on the command line, and is
rendered as a document all the same. -/
structure OnlyInDocument (E : String) : Prop where
  printed : ∃ e, Statement.ofLine (E ++ " = ?") = .ok (.print e none : Statement Float)
  unevaluated : ∀ q, evaluation E ≠ .ok q
  rendered : ∃ d, render Float 3 false (E ++ " = ?") = .ok d

theorem onlyInDocument_of_outcomes {E : String}
    (hprinted : (match (Statement.ofLine (E ++ " = ?") : Result (Statement Float)) with
      | .ok (.print _ none) => true
      | _ => false) = true)
    (hvalue : (evaluation E).isOk = false)
    (hrendered : (render Float 3 false (E ++ " = ?")).isOk = true) : OnlyInDocument E where
  printed := by
    split at hprinted
    · next e h => exact ⟨e, h⟩
    · cases hprinted
  unevaluated q hq := by
    rw [hq] at hvalue
    cases hvalue
  rendered := exists_eq_ok hrendered

/-- **They do not agree on every text.**  Twice the circle constant can be printed in a document,
where it is called `pi`, but the command line does not know it.  With a blank before it,
`alias m = ?` is a value to print; but a document drops the blank, and is left with an alias. -/
theorem not_all_agree : OnlyInDocument "2*pi" ∧ OnlyInDocument " alias m" :=
  ⟨onlyInDocument_of_outcomes (by decide +kernel) (by decide +kernel) (by decide +kernel),
    onlyInDocument_of_outcomes (by decide +kernel) (by decide +kernel) (by decide +kernel)⟩

end Command
end Mensura
