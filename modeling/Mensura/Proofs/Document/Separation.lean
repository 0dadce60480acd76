import Mensura.Proofs.Document.Entry

/-!
# Declarations to print, in two statements

`y = x / 2 = ? g` says in one line what `y = x / 2` and `y = ? g` say in two.  The three statements
are separate actions, which look at the state in different orders, and the two lines apply the
aliases to the name in two ways: the declaration calls its target as the state does, the value to
print renames the identifier of that name.  All the same they come to one thing
(`declarePrint_separated`): behind the declaration the identifier stands for the value just bound
(`workOut_declared`), so the same value is shown in the same format, or fails to be.
-/

set_option autoImplicit false

namespace Mensura
namespace Document

variable {α : Type} [Scalar α]

/-! ## Behind the last sign of equality -/

/-- What a text holds behind its last sign of equality; all of it, if it has none. -/
def behindEquals (text : String) : String :=
  String.ofList (text.toList.reverse.takeWhile (· ≠ '=')).reverse

/-- Nothing in front of a sign of equality matters. -/
theorem behindEquals_append (a b : String) :
    behindEquals (a ++ " = " ++ b) = behindEquals (" " ++ b) := by
  have hfront : (a ++ " = " ++ b).toList.reverse =
      (" " ++ b).toList.reverse ++ '=' :: ' ' :: a.toList.reverse := by
    simp [String.toList_append]
  rw [behindEquals, behindEquals, hfront]
  congr 2
  induction (" " ++ b).toList.reverse with
  | nil => simp
  | cons c cs ih => rw [List.cons_append, List.takeWhile_cons, List.takeWhile_cons, ih]

/-- What stands behind the last sign of equality of a line is the same for every line with one
result. -/
theorem behindEquals_line (before : String) (name : Option String) (shown result : String) :
    behindEquals (before ++ (Line.mk name shown (some result)).text) =
      behindEquals (" " ++ (result ++ "$\\\\\n")) := by
  obtain ⟨front, hfront⟩ : ∃ front, before ++ (Line.mk name shown (some result)).text =
      front ++ " = " ++ (result ++ "$\\\\\n") := by
    cases name with
    | none => exact ⟨before ++ "$" ++ shown, by
        simp [Line.text, State.formulaLine, Formula.inlineMath, String.append_assoc]⟩
    | some name => exact ⟨before ++ "$" ++ name ++ " = " ++ shown, by
        simp [Line.text, State.formulaLine, Formula.inlineMath, String.append_assoc]⟩
  rw [hfront, behindEquals_append]

/-! ## The value just declared -/

namespace State

variable {s : State α} {x : String} {value : Expr α} {v : Quantity α} {hint : Option (UnitHint α)}

/-- A declaration to print is worked out if the declaration is, and its value can be shown. -/
theorem workOut_declarePrint : s.workOut ⟨some x, value, some hint⟩ =
      s.workOut ⟨some x, value, none⟩ >>= fun (v, line) ↦
        Typeset.quantity (s.format hint) v >>= fun result ↦
          .ok (v, { line with result := some result }) := by
  simp [workOut, resultOf, bind_assoc]

/-- Behind a declaration its name stands for the value, whatever the name is called. -/
theorem workOut_declared {line : Line} (h : line.name = some (s.nameOf x)) :
    (s.enter line v).workOut ⟨none, .ident x, some hint⟩ =
      Typeset.quantity (s.format hint) v >>= fun result ↦
        .ok (v, ⟨none, s.nameOf x, some result⟩) := by
  have hvalue : (Expr.ident (s.nameOf x)).eval (s.enter line v).scope = .ok v := by
    rw [Expr.eval, Expr.resolve, enter_find?, if_pos h]
  have hformat : (s.enter line v).format = s.format := by
    funext hint
    rw [format, format, enter_digits, enter_scientific]
  rw [workOut_printed, evaluated]
  simp only [enter_nameOf, Expr.rename, hvalue, hformat, Typeset.expr, ok_bind, pure_eq_ok,
    bind_assoc, Option.map_none]

/-- A line that declares nothing leaves the scope as it is. -/
theorem enter_scope_of_unnamed {line : Line} (h : line.name = none) :
    (s.enter line v).scope = s.scope := by
  rw [enter, h]
  rfl

/-- The scope behind a line depends on its name only, not on what it shows. -/
theorem enter_scope_congr {line other : Line} (h : line.name = other.name) :
    (s.enter line v).scope = (s.enter other v).scope := by
  rw [enter, enter, h]
  split <;> rfl

/-- A value to print fails as its evaluation does. -/
theorem execute_print_error {e : Failure} :
    s.execute (.print value hint) = .error e ↔ s.workOut ⟨none, value, some hint⟩ = .error e := by
  rw [execute_print, workOut_printed]
  cases s.evaluated value hint <;> simp

/-- So does a declaration to print. -/
theorem execute_declarePrint_error {e : Failure} :
    s.execute (.declarePrint x value hint) = .error e ↔
      s.workOut ⟨some x, value, some hint⟩ = .error e := by
  rw [execute_declarePrint, workOut_printed]
  cases s.evaluated value hint <;> simp

end State

/-! ## Both ways -/

/-- **A declaration to print is a declaration and a value to print.**  If it is carried out, so are
the declaration and then the value of the declared name, under the same hint.  Both ways end with
the same scope, in which the name, as it is called, has the value of the expression, the same names
and the same format, and behind the last sign of equality they have written the same.  If it fails,
then the declaration fails, or it is carried out and the value fails to be printed, with the same
error. -/
theorem declarePrint_separated (s : State α) (x : String) (value : Expr α)
    (hint : Option (UnitHint α)) :
    (∀ t, s.execute (.declarePrint x value hint) = .ok t → ∃ m u v shown result,
      s.execute (.declare x value) = .ok m ∧ m.execute (.print (.ident x) hint) = .ok u ∧
      u.scope = t.scope ∧ u.names = t.names ∧ u.digits = t.digits ∧
      u.scientific = t.scientific ∧
      (value.rename s.nameOf).eval s.scope = .ok v ∧ t.scope.find? (s.nameOf x) = some v ∧
      t.output = s.output ++ (Line.mk (some (s.nameOf x)) shown (some result)).text ∧
      u.output = s.output ++ (Line.mk (some (s.nameOf x)) shown none).text ++
        (Line.mk none (s.nameOf x) (some result)).text ∧
      behindEquals u.output = behindEquals t.output) ∧
    ∀ e, s.execute (.declarePrint x value hint) = .error e →
      ∀ m, s.execute (.declare x value) = .ok m →
        m.execute (.print (.ident x) hint) = .error e := by
  refine ⟨fun t ht ↦ ?_, fun e he m hm ↦ ?_⟩
  · obtain ⟨v, line, hwork, rfl⟩ := (State.execute_entry rfl).mp ht
    rw [State.workOut_declarePrint] at hwork
    obtain ⟨⟨w, declared⟩, hdeclared, hwork⟩ := bind_eq_ok.mp hwork
    obtain ⟨result, hresult, hwork⟩ := bind_eq_ok.mp hwork
    obtain ⟨rfl, rfl⟩ := Prod.mk.inj (Except.ok.inj hwork)
    obtain ⟨hvalue, -, hnone, hname⟩ := State.workOut_eq_ok.mp hdeclared
    obtain ⟨name, shown, none'⟩ := declared
    obtain rfl : name = some (s.nameOf x) := hname
    obtain rfl : none = none' := Except.ok.inj hnone
    have hprint : (s.enter ⟨some (s.nameOf x), shown, none⟩ w).workOut
        ⟨none, .ident x, some hint⟩ = .ok (w, ⟨none, s.nameOf x, some result⟩) := by
      rw [State.workOut_declared rfl, hresult, ok_bind]
    refine ⟨_, _, w, shown, result, (State.execute_entry rfl).mpr ⟨w, _, hdeclared, rfl⟩,
      (State.execute_entry rfl).mpr ⟨w, _, hprint, rfl⟩, ?_, by simp, by simp, by simp, hvalue, ?_,
      State.enter_output .., ?_, ?_⟩
    · rw [State.enter_scope_of_unnamed rfl]
      exact State.enter_scope_congr rfl
    · rw [State.enter_find?, if_pos rfl]
    · rw [State.enter_output, State.enter_output]
    · rw [State.enter_output, behindEquals_line, State.enter_output, behindEquals_line]
  · obtain ⟨v, declared, hdeclared, rfl⟩ := (State.execute_entry rfl).mp hm
    rw [State.execute_declarePrint_error, State.workOut_declarePrint, hdeclared, ok_bind] at he
    dsimp only at he
    rw [State.execute_print_error, State.workOut_declared (State.workOut_name hdeclared)]
    -- what has failed is to show the value, on either way
    cases hresult : Typeset.quantity (s.format hint) v with
    | ok result => rw [hresult] at he; cases he
    | error => rwa [hresult] at he

/-- The name `pi` is called `\\pi`, and stands for the constant until it is declared anew.  A plain
number that is to be shown in seconds is declared and cannot be printed. -/
theorem declarePrint_separated_pi :
    (∃ t m u : State Float,
      (State.initial 3 false).execute (.declarePrint "pi" (.literal (.ofScalar 2)) none) = .ok t ∧
      (State.initial 3 false).execute (.declare "pi" (.literal (.ofScalar 2))) = .ok m ∧
      m.execute (.print (.ident "pi") none) = .ok u ∧ u.scope = t.scope ∧
      behindEquals u.output = behindEquals t.output) ∧
    ∃ m : State Float,
      (State.initial 3 false).execute (.declare "y" (.literal (.ofScalar 2))) = .ok m ∧
      m.execute (.print (.ident "y") (some ⟨.decimal (.base .time) 0, "s"⟩)) =
        .error (.calc (.hintMismatch "s" 1)) := by
  have hpi : ((State.initial 3 false : State Float).execute
      (.declarePrint "pi" (.literal (.ofScalar 2)) none)).isOk = true := by decide +kernel
  have hy : ((State.initial 3 false : State Float).execute
      (.declare "y" (.literal (.ofScalar 2)))).isOk = true := by decide +kernel
  have hmismatch : (State.initial 3 false : State Float).execute (.declarePrint "y"
      (.literal (.ofScalar 2)) (some ⟨.decimal (.base .time) 0, "s"⟩)) =
        .error (.calc (.hintMismatch "s" 1)) := by
    have hstopped : (run (State.initial 3 false : State Float) [(1, .declarePrint "y"
        (.literal (.ofScalar 2)) (some ⟨.decimal (.base .time) 0, "s"⟩))]).stopped =
          some (.error 1 (.hintMismatch "s" 1)) := by decide +kernel
    rw [run_cons] at hstopped
    split at hstopped
    · cases hstopped
    · next e he => cases e <;> simp_all [DocumentFailure.atLine]
  obtain ⟨t, ht⟩ := exists_eq_ok hpi
  obtain ⟨m, u, v, shown, result, hm, hu, hscope, -, -, -, -, -, -, -, houtput⟩ :=
    (declarePrint_separated (State.initial 3 false : State Float) "pi" (.literal (.ofScalar 2))
      none).1 t ht
  obtain ⟨n, hn⟩ := exists_eq_ok hy
  exact ⟨⟨t, m, u, ht, hm, hu, hscope, houtput⟩, n, hn,
    (declarePrint_separated _ _ _ _).2 _ hmismatch n hn⟩

end Document
end Mensura
