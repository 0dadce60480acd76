import Mensura.Proofs.Document.Faults
import Mensura.Proofs.Document.Items
import Mensura.Scalar.Binary64

/-!
# The first failure of a document

A document is rendered if its source is read to the end and every statement is carried out.
`FirstFailure` says independently of the run what is the first to go wrong, and in which line: the
first lines that start with no item, before anything is carried out, or else the first statement
that fails behind statements that do not.

`render_outcome` shows that rendering reports exactly that failure: an error of the calculator with
its line, counted from one, and a fault without.  The faults that can escape so are those of
`ReadingFault` and `ExecutionFault`.
-/

set_option autoImplicit false

namespace Mensura
namespace Document

variable {α : Type} [Scalar α]

/-- Statements carried out one after another, all of them successfully. -/
inductive Executes : State α → Program α → State α → Prop
  | nil {s : State α} : Executes s [] s
  | cons {s t u : State α} {line : Nat} {statement : Statement α} {rest : Program α} :
    s.execute statement = .ok t → Executes t rest u → Executes s ((line, statement) :: rest) u

/-- The first failure of a source, and the line it is in. -/
inductive FirstFailure (α : Type) [Scalar α] (digits : Nat) (scientific : Bool)
    (source : String) : Nat → Failure → Prop
  /-- Some lines cannot be read; nothing is carried out. -/
  | reading {first rest : List String} {program : Program α} {n : Nat} {e : Failure} :
    Text.lines source = first ++ rest → Reads 1 first program →
    Failing α (1 + first.length) rest n e → FirstFailure α digits scientific source n e
  /-- All lines can be read, but a statement fails. -/
  | executing {done rest : Program α} {n : Nat} {statement : Statement α} {s : State α}
      {e : Failure} :
    Reads 1 (Text.lines source) (done ++ (n, statement) :: rest) →
    Executes (State.initial digits scientific) done s → s.execute statement = .error e →
    FirstFailure α digits scientific source n e

/-! ## Runs -/

theorem run_of_executes {s t : State α} {program : Program α} (h : Executes s program t)
    (rest : Program α) : run s (program ++ rest) = run t rest := by
  induction h with
  | nil => rfl
  | cons hexecute _ ih =>
    rw [List.cons_append, run_cons, hexecute]
    exact ih

/-- A run gets to the end or to the first statement that fails. -/
theorem exists_executes_or_failing (s : State α) (program : Program α) :
    (∃ t, Executes s program t) ∨
    ∃ done n statement rest t e, program = done ++ (n, statement) :: rest ∧ Executes s done t ∧
      t.execute statement = .error e := by
  induction program generalizing s with
  | nil => exact .inl ⟨s, .nil⟩
  | cons entry rest ih =>
    obtain ⟨n, statement⟩ := entry
    cases h : s.execute statement with
    | error e => exact .inr ⟨[], n, statement, rest, s, e, rfl, .nil, h⟩
    | ok t =>
      rcases ih t with ⟨u, hu⟩ | ⟨done, m, failing, more, u, e, rfl, hdone, hfail⟩
      · exact .inl ⟨u, .cons h hu⟩
      · exact .inr ⟨(n, statement) :: done, m, failing, more, u, e, rfl, .cons h hdone, hfail⟩

/-! ## Rendering -/

section Render

variable {digits : Nat} {scientific : Bool} {source : String}

theorem render_of_executes {program : Program α} {s : State α}
    (hread : Reads 1 (Text.lines source) program)
    (hrun : Executes (State.initial digits scientific) program s) :
    render α digits scientific source = .ok ⟨s.output ++ footer, program.length⟩ := by
  have hend := run_of_executes hrun []
  rw [List.append_nil] at hend
  rw [render, ofText, ofLines_eq_ok.mpr hread, ok_bind, hend]
  rfl

theorem render_of_firstFailure {n : Nat} {e : Failure}
    (h : FirstFailure α digits scientific source n e) :
    render α digits scientific source = .error (.atLine n e) := by
  cases h with
  | @reading first rest program _ _ hlines hreads hfail =>
    have hread : (ofLines 1 .between (Text.lines source) : Except DocumentFailure (Program α)) =
        .error (.atLine n e) :=
      ofLines_eq_error.mpr ⟨first, rest, n, e, program, hlines, hreads, hfail, rfl⟩
    rw [render, ofText, hread]
    rfl
  | executing hread hrun hfail =>
    rw [render, ofText, ofLines_eq_ok.mpr hread, ok_bind, run_of_executes hrun, run_cons, hfail]
    rfl

/-- A source is rendered, or there is a first failure. -/
theorem exists_executes_or_firstFailure (digits : Nat) (scientific : Bool) (source : String) :
    (∃ program s, Reads 1 (Text.lines source) program ∧
      Executes (State.initial digits scientific : State α) program s) ∨
    ∃ n e, FirstFailure α digits scientific source n e := by
  rcases exists_reads_or_failing (α := α) 1 (Text.lines source) with
    ⟨program, hread⟩ | ⟨first, rest, n, e, program, hlines, hreads, hfail⟩
  · rcases exists_executes_or_failing (State.initial digits scientific) program with
      ⟨s, hrun⟩ | ⟨done, n, statement, rest, s, e, rfl, hrun, hfail⟩
    · exact .inl ⟨program, s, hread, hrun⟩
    · exact .inr ⟨n, e, .executing hread hrun hfail⟩
  · exact .inr ⟨n, e, .reading hlines hreads hfail⟩

theorem render_eq_error {failure : DocumentFailure} :
    render α digits scientific source = .error failure ↔
      ∃ n e, FirstFailure α digits scientific source n e ∧ failure = .atLine n e := by
  constructor
  · intro h
    rcases exists_executes_or_firstFailure (α := α) digits scientific source with
      ⟨program, s, hread, hrun⟩ | ⟨n, e, hfail⟩
    · simp [render_of_executes hread hrun] at h
    · refine ⟨n, e, hfail, ?_⟩
      simpa [render_of_firstFailure hfail] using h.symm
  · rintro ⟨n, e, hfail, rfl⟩
    exact render_of_firstFailure hfail

theorem render_eq_ok {d : Rendered} :
    render α digits scientific source = .ok d ↔
      ∃ program s, Reads 1 (Text.lines source) program ∧
        Executes (State.initial digits scientific : State α) program s ∧
        d = ⟨s.output ++ footer, program.length⟩ := by
  constructor
  · intro h
    rcases exists_executes_or_firstFailure (α := α) digits scientific source with
      ⟨program, s, hread, hrun⟩ | ⟨n, e, hfail⟩
    · refine ⟨program, s, hread, hrun, ?_⟩
      simpa [render_of_executes hread hrun] using h.symm
    · simp [render_of_firstFailure hfail] at h
  · rintro ⟨program, s, hread, hrun, rfl⟩
    exact render_of_executes hread hrun

theorem atLine_eq_error {n m : Nat} {failure : Failure} {e : CalcError} :
    DocumentFailure.error m e = .atLine n failure ↔ n = m ∧ failure = .calc e := by
  cases failure <;> simp [DocumentFailure.atLine, eq_comm]

theorem atLine_eq_fault {n : Nat} {failure : Failure} {f : Fault} :
    DocumentFailure.fault f = .atLine n failure ↔ failure = .fault f := by
  cases failure <;> simp [DocumentFailure.atLine, eq_comm]

/-- Only these faults are ever the first failure. -/
theorem FirstFailure.fault {n : Nat} {f : Fault}
    (h : FirstFailure α digits scientific source n (.fault f)) :
    ReadingFault f ∨ ExecutionFault f := by
  cases h with
  | reading _ _ hfail =>
    cases hfail with
    | statement _ _ hread => exact .inl (Statement.ofLine_faults _ f hread)
  | executing _ _ hfail => exact .inr (State.execute_faults _ _ f hfail)

end Render

/-- **Rendering reports the first failure.**  A source is rendered exactly if it is read to the end
and every statement is carried out.  An error is reported exactly if it is the first failure, with
the line of that; and a fault, without a line, exactly if the first failure is one.  Which faults
these can be is known. -/
theorem render_outcome (α : Type) [Scalar α] (digits : Nat) (scientific : Bool)
    (source : String) :
    (∀ d, render α digits scientific source = .ok d ↔
      ∃ program s, Reads 1 (Text.lines source) program ∧
        Executes (State.initial digits scientific : State α) program s ∧
        d = ⟨s.output ++ footer, program.length⟩) ∧
    (∀ n e, render α digits scientific source = .error (.error n e) ↔
      FirstFailure α digits scientific source n (.calc e)) ∧
    (∀ f, render α digits scientific source = .error (.fault f) ↔
      ∃ n, FirstFailure α digits scientific source n (.fault f)) ∧
    (∀ n f, FirstFailure α digits scientific source n (.fault f) →
      ReadingFault f ∨ ExecutionFault f) := by
  refine ⟨fun d ↦ render_eq_ok, fun n e ↦ ?_, fun f ↦ ?_, fun n f h ↦ h.fault⟩
  · simp only [render_eq_error, atLine_eq_error]
    constructor
    · rintro ⟨n, e, h, rfl, rfl⟩
      exact h
    · intro h
      exact ⟨n, _, h, rfl, rfl⟩
  · simp only [render_eq_error, atLine_eq_fault]
    constructor
    · rintro ⟨n, e, h, rfl⟩
      exact ⟨n, h⟩
    · rintro ⟨n, h⟩
      exact ⟨n, _, h, rfl⟩

/-- A superscript is a digit, but no integer is made of it. -/
theorem render_superscript :
    render Float 3 false "digits ²" = .error (.fault (.badInteger "'²'")) :=
  rfl

/-- The number of digits that cannot be read is the first failure of its document. -/
theorem firstFailure_superscript :
    ∃ n, FirstFailure Float 3 false "digits ²" n (.fault (.badInteger "'²'")) ∧
      (ReadingFault (.badInteger "'²'") ∨ ExecutionFault (.badInteger "'²'")) := by
  obtain ⟨-, -, hfault, hkinds⟩ := render_outcome Float 3 false "digits ²"
  obtain ⟨n, hfirst⟩ := (hfault _).mp render_superscript
  exact ⟨n, hfirst, hkinds n _ hfirst⟩

/-- So not every failure of a document is an error with a line. -/
theorem not_every_failure_located :
    ¬∀ source : String, (∃ d, render Float 3 false source = .ok d) ∨
      ∃ n e, render Float 3 false source = .error (.error n e) := by
  intro h
  rcases h "digits ²" with ⟨d, hd⟩ | ⟨n, e, he⟩
  · cases render_superscript.symm.trans hd
  · cases render_superscript.symm.trans he

end Document
end Mensura
