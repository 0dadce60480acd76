import Mensura.Document
import Mensura.Proofs.Outcome
import Mensura.Scalar.Binary64

/-!
# Statements that stop change nothing

Statements change the state piece by piece, and what a statement has changed before it stops stays
changed.  So a state is only safe from a failing statement if each change comes behind everything
that can still fail.  Two properties of actions say so:

* an action that is `Steady` leaves the state as it is, whether it succeeds or stops;
* an action that is `Clean` leaves the state as it is if it stops.

Reading and calculating are steady, so an action stays clean behind them; and what comes last may
change the state, because a change itself cannot stop.  Every statement has this form
(`perform_clean`), whence a run that stops ends in the state of the statements before the one that
stopped it (`failing_statement_changes_nothing`).
-/

set_option autoImplicit false

namespace Mensura
namespace Document

variable {α β γ : Type} [Scalar α]

/-! ## Actions -/

/-- An action that leaves the state as it is. -/
def Steady (a : Action α β) : Prop :=
  ∀ s, (∀ b t, a.run s = .ok b t → t = s) ∧ ∀ e t, a.run s = .error e t → t = s

/-- An action that leaves the state as it is if it stops. -/
def Clean (a : Action α β) : Prop :=
  ∀ s e t, a.run s = .error e t → t = s

/-- An action that never stops. -/
def Total (a : Action α β) : Prop :=
  ∀ s, ∃ b t, a.run s = .ok b t

theorem run_bind (a : Action α β) (f : β → Action α γ) (s : State α) :
    (a >>= f).run s =
      match a.run s with
      | .ok b t => (f b).run t
      | .error e t => .error e t := by
  change EStateM.bind a f s = _
  rw [EStateM.bind, EStateM.run]
  cases a s <;> rfl

theorem run_get (s : State α) : (get : Action α (State α)).run s = .ok s s := rfl

theorem steady_get : Steady (get : Action α (State α)) := by
  refine fun s ↦ ⟨?_, ?_⟩
  · rintro b t ⟨⟩
    rfl
  · rintro e t ⟨⟩

theorem steady_calculate (r : Result β) : Steady (calculate r : Action α β) := by
  intro s
  cases r with
  | ok b =>
    refine ⟨?_, ?_⟩
    · rintro b t ⟨⟩
      rfl
    · rintro e t ⟨⟩
  | error e =>
    refine ⟨?_, ?_⟩
    · rintro b t ⟨⟩
    · rintro e t ⟨⟩
      rfl

theorem total_modify (f : State α → State α) : Total (modify f : Action α PUnit) :=
  fun s ↦ ⟨⟨⟩, f s, rfl⟩

theorem Total.bind {a : Action α β} {f : β → Action α γ} (ha : Total a) (hf : ∀ b, Total (f b)) :
    Total (a >>= f) := by
  intro s
  obtain ⟨b, t, hrun⟩ := ha s
  obtain ⟨c, u, hrun'⟩ := hf b t
  exact ⟨c, u, by rw [run_bind, hrun]; exact hrun'⟩

/-- What never stops leaves nothing behind when it stops. -/
theorem Total.clean {a : Action α β} (ha : Total a) : Clean a := by
  intro s e t h
  obtain ⟨b, u, hrun⟩ := ha s
  rw [hrun] at h
  cases h

/-- Whatever is read first, the state is still the one that the action started in. -/
theorem Clean.bind {a : Action α β} {f : β → Action α γ} (ha : Steady a) (hf : ∀ b, Clean (f b)) :
    Clean (a >>= f) := by
  intro s e t h
  rw [run_bind] at h
  cases hrun : a.run s with
  | ok b u =>
    rw [hrun] at h
    obtain rfl := (ha s).1 b u hrun
    exact hf b u e t h
  | error e' u =>
    rw [hrun] at h
    obtain ⟨rfl, rfl⟩ : e' = e ∧ u = t := by simpa using h
    exact (ha s).2 _ _ hrun

/-! ## Statements -/

theorem declare_clean (name : String) (value : Expr α) : Clean (declare name value) :=
  .bind steady_get fun _ ↦ .bind (steady_calculate _) fun _ ↦ .bind (steady_calculate _) fun _ ↦
    Total.clean (.bind (total_modify _) fun _ ↦ total_modify _)

theorem print_clean (value : Expr α) (hint : Option (UnitHint α)) : Clean (print value hint) :=
  .bind steady_get fun _ ↦ .bind (steady_calculate _) fun _ ↦ (total_modify _).clean

theorem declarePrint_clean (name : String) (value : Expr α) (hint : Option (UnitHint α)) :
    Clean (declarePrint name value hint) :=
  .bind steady_get fun _ ↦ .bind (steady_calculate _) fun _ ↦
    Total.clean (.bind (total_modify _) fun _ ↦ total_modify _)

/-- **Every statement makes its changes behind all that can stop it.** -/
theorem perform_clean (statement : Statement α) : Clean (perform statement) := by
  cases statement with
  | declare name value => exact declare_clean name value
  | print value hint => exact print_clean value hint
  | declarePrint name value hint => exact declarePrint_clean name value hint
  | rename | digits | scientific | gap | table | raw => exact (total_modify _).clean

/-- A statement stops with an error exactly if it has no outcome; the state is unchanged then. -/
theorem perform_run_error {s : State α} {statement : Statement α} {e : Failure} :
    (perform statement).run s = .error e s ↔ s.execute statement = .error e := by
  rw [State.execute]
  cases hrun : (perform statement).run s with
  | ok b t => simp
  | error e' t =>
    obtain rfl := perform_clean statement s e' t hrun
    simp

theorem perform_run_ok {s t : State α} {statement : Statement α} :
    (perform statement).run s = .ok ⟨⟩ t ↔ s.execute statement = .ok t := by
  rw [State.execute]
  cases hrun : (perform statement).run s with
  | ok b u => simp
  | error e u => simp

/-! ## What statements come to -/

namespace State

variable (s : State α)

theorem execute_declare (name : String) (value : Expr α) :
    s.execute (.declare name value) = do
      let shown ← Typeset.expr (s.format none) (value.rename s.nameOf)
      let v ← (value.rename s.nameOf).eval s.scope
      return (s.write (formulaLine [s.nameOf name, shown])).bind (s.nameOf name) v := by
  simp only [execute, perform, declare, run_bind, run_get]
  cases Typeset.expr (s.format none) (value.rename s.nameOf) with
  | error e => rfl
  | ok shown => cases (value.rename s.nameOf).eval s.scope <;> rfl

theorem execute_print (value : Expr α) (hint : Option (UnitHint α)) :
    s.execute (.print value hint) = do
      let (_, shown, result) ← s.evaluated value hint
      return s.write (formulaLine [shown, result]) := by
  simp only [execute, perform, print, run_bind, run_get]
  cases s.evaluated value hint <;> rfl

theorem execute_declarePrint (name : String) (value : Expr α) (hint : Option (UnitHint α)) :
    s.execute (.declarePrint name value hint) = do
      let (v, shown, result) ← s.evaluated value hint
      return (s.write (formulaLine [s.nameOf name, shown, result])).bind (s.nameOf name) v := by
  simp only [execute, perform, declarePrint, run_bind, run_get]
  cases s.evaluated value hint <;> rfl

end State

/-! ## Runs -/

/-- A run goes on behind a statement that is carried out, and ends unchanged at one that stops. -/
theorem run_cons (s : State α) (line : Nat) (statement : Statement α) (rest : Program α) :
    run s ((line, statement) :: rest) =
      match s.execute statement with
      | .ok t => run t rest
      | .error e => ⟨s, some (.atLine line e)⟩ := by
  rw [run]
  cases hexecute : s.execute statement with
  | ok t => rw [perform_run_ok.mpr hexecute]
  | error e => rw [perform_run_error.mpr hexecute]

/-- A run stops at a statement that stops, behind others that are all carried out. -/
theorem exists_of_run_stopped {s : State α} {program : Program α} {failure : DocumentFailure}
    (h : (run s program).stopped = some failure) :
    ∃ done n statement rest e, program = done ++ (n, statement) :: rest ∧
      run s done = ⟨(run s program).state, none⟩ ∧
      (perform statement).run (run s program).state = .error e (run s program).state ∧
      failure = .atLine n e := by
  induction program generalizing s with
  | nil => simp [run] at h
  | cons entry rest ih =>
    obtain ⟨n, statement⟩ := entry
    rw [run_cons] at h ⊢
    cases hexecute : s.execute statement with
    | error e =>
      rw [hexecute] at h
      refine ⟨[], n, statement, rest, e, rfl, rfl, perform_run_error.mpr hexecute, ?_⟩
      exact (Option.some.inj h).symm
    | ok t =>
      rw [hexecute] at h
      obtain ⟨done, m, failing, more, e, rfl, hdone, hfail, hfailure⟩ := ih h
      refine ⟨(n, statement) :: done, m, failing, more, e, rfl, ?_, hfail, hfailure⟩
      rw [run_cons, hexecute]
      exact hdone

/-- **A statement that fails changes nothing**: not the scope, the names, the format or the output.
So a run that is stopped by its statement number `k` ends in the state in which a run of the
statements before it ends, all of which are carried out. -/
theorem failing_statement_changes_nothing (s : State α) :
    (∀ statement e t, (perform statement).run s = .error e t → t = s) ∧
    ∀ program failure, (run s program).stopped = some failure →
      ∃ k n statement, program[k]? = some (n, statement) ∧
        run s (program.take k) = ⟨(run s program).state, none⟩ ∧
        ∃ e, (perform statement).run (run s program).state = .error e (run s program).state ∧
          failure = .atLine n e := by
  refine ⟨fun statement ↦ perform_clean statement s, fun program failure h ↦ ?_⟩
  obtain ⟨done, n, statement, rest, e, hprogram, hdone, hfail, hfailure⟩ := exists_of_run_stopped h
  refine ⟨done.length, n, statement, ?_, ?_, e, hfail, hfailure⟩
  · rw [hprogram]
    simp
  · rw [← hdone, hprogram, List.take_left]

/-- A plain number is declared, and then shown in seconds. -/
def plainInSeconds : Program Float :=
  [(1, .declare "x" (.literal (.ofScalar 2))),
    (2, .declarePrint "y" (.ident "x") (some ⟨.decimal (.base .time) 0, "s"⟩))]

/-- The second statement fails when its value is already computed, and `y` stays unbound. -/
theorem plainInSeconds_changes_nothing :
    (∃ e t, (perform (.print (.ident "z") none)).run (State.initial 3 false : State Float) =
      .error e t ∧ t = State.initial 3 false) ∧
    (run (State.initial 3 false) plainInSeconds).stopped =
      some (.error 2 (.hintMismatch "s" 1)) ∧
    ∃ k n statement, plainInSeconds[k]? = some (n, statement) ∧
      run (State.initial 3 false) (plainInSeconds.take k) =
        ⟨(run (State.initial 3 false) plainInSeconds).state, none⟩ ∧
      ∃ e, (perform statement).run (run (State.initial 3 false) plainInSeconds).state =
          .error e (run (State.initial 3 false) plainInSeconds).state ∧
        .error 2 (.hintMismatch "s" 1) = DocumentFailure.atLine n e := by
  have hstopped : (run (State.initial 3 false) plainInSeconds).stopped =
      some (.error 2 (.hintMismatch "s" 1)) := by decide +kernel
  have hundefined : (perform (.print (.ident "z") none)).run (State.initial 3 false : State Float) =
      .error (.calc (.undefinedSymbol "z")) (State.initial 3 false) := rfl
  obtain ⟨hstatement, hprogram⟩ :=
    failing_statement_changes_nothing (State.initial 3 false : State Float)
  exact ⟨⟨_, _, hundefined, hstatement _ _ _ hundefined⟩, hstopped, hprogram _ _ hstopped⟩

end Document
end Mensura
