import Mensura.Proofs.Document.Execution
import Mensura.Proofs.Expr.Dependence

/-!
# Entries of a document

A declaration, a value to print and a declaration to print are one thing, an `Entry`: an expression
that may be given a name and whose value may be shown.  Carrying out an entry is working out its
value and its line, which only reads the state, and then entering both into it (`execute_entry`).

What is worked out depends on the state only through the names, the format, and the values of the
identifiers that occur in the renamed expression (`workOut_congr`).  So entries that declare
different names, none of them used by the other, can be carried out in either order
(`declarations_commute`).
-/

set_option autoImplicit false

namespace Mensura

open Mensura.Expr (Occurs)

variable {α : Type} [Scalar α]

namespace Document

/-- An expression, the name it is declared under, if it is, and the hint its value is shown with, if
it is shown. -/
structure Entry (α : Type) [Scalar α] where
  name : Option String
  value : Expr α
  printed : Option (Option (UnitHint α))

/-- A line that shows a formula: the name it declares, the expression, and its value. -/
structure Line where
  name : Option String
  shown : String
  result : Option String

/-- The line as it is written. -/
def Line.text (l : Line) : String :=
  State.formulaLine (l.name.toList ++ l.shown :: l.result.toList)

end Document

namespace Statement

open Document (Entry)

/-- The entry that a statement is, if it is one. -/
def asEntry : Statement α → Option (Entry α)
  | declare name value => some ⟨some name, value, none⟩
  | print value hint => some ⟨none, value, some hint⟩
  | declarePrint name value hint => some ⟨some name, value, some hint⟩
  | _ => none

/-- A declaration of a name, whether its value is shown or not. -/
def Declares (s : Statement α) (name : String) (value : Expr α) : Prop :=
  ∃ printed, s.asEntry = some ⟨some name, value, printed⟩

end Statement

namespace Document

/-- What a name is called where there are no aliases but the first one. -/
def called (name : String) : String :=
  if name = "pi" then "\\pi" else name

theorem initial_nameOf (digits : Nat) (scientific : Bool) :
    (State.initial digits scientific : State α).nameOf = called := by
  funext name
  rw [State.nameOf, State.initial, lookup_cons, called]
  split <;> rfl

namespace State

/-! ## Carrying out an entry -/

/-- The value of an entry as it is shown, if it is. -/
def resultOf (s : State α) (v : Quantity α) : Option (Option (UnitHint α)) → Result (Option String)
  | none => .ok none
  | some hint => do return some (← Typeset.quantity (s.format hint) v)

/-- The value of an entry, and its line. -/
def workOut (s : State α) (e : Entry α) : Result (Quantity α × Line) := do
  let value := e.value.rename s.nameOf
  let v ← value.eval s.scope
  let shown ← Typeset.expr (s.format none) value
  let result ← s.resultOf v e.printed
  return (v, ⟨e.name.map s.nameOf, shown, result⟩)

/-- Writes a line, and binds the name that it declares. -/
def enter (s : State α) (line : Line) (v : Quantity α) : State α :=
  match line.name with
  | none => s.write line.text
  | some name => (s.write line.text).bind name v

section Enter

variable (s : State α) (line : Line) (v : Quantity α)

@[simp] theorem enter_names : (s.enter line v).names = s.names := by
  rw [enter]
  split <;> rfl

@[simp] theorem enter_digits : (s.enter line v).digits = s.digits := by
  rw [enter]
  split <;> rfl

@[simp] theorem enter_scientific : (s.enter line v).scientific = s.scientific := by
  rw [enter]
  split <;> rfl

@[simp] theorem enter_output : (s.enter line v).output = s.output ++ line.text := by
  rw [enter]
  split <;> rfl

@[simp] theorem enter_nameOf : (s.enter line v).nameOf = s.nameOf := by
  funext name
  rw [nameOf, nameOf, enter_names]

theorem enter_find? (name : String) : (s.enter line v).scope.find? name =
    if line.name = some name then some v else s.scope.find? name := by
  rw [enter]
  split
  · next h => simp [h, write]
  · next other h => simp [h, write, bind, Scope.find?_bind, eq_comm]

end Enter

/-- An entry is worked out if it has a value, a formula, and a text of the value to be shown. -/
theorem workOut_eq_ok {s : State α} {e : Entry α} {v : Quantity α} {line : Line} :
    s.workOut e = .ok (v, line) ↔ (e.value.rename s.nameOf).eval s.scope = .ok v ∧
      Typeset.expr (s.format none) (e.value.rename s.nameOf) = .ok line.shown ∧
      s.resultOf v e.printed = .ok line.result ∧ line.name = e.name.map s.nameOf := by
  constructor
  · intro h
    obtain ⟨w, hw, h⟩ := bind_eq_ok.mp h
    obtain ⟨shown, hshown, h⟩ := bind_eq_ok.mp h
    obtain ⟨result, hresult, h⟩ := bind_eq_ok.mp h
    obtain ⟨rfl, rfl⟩ := Prod.mk.inj (Except.ok.inj h)
    exact ⟨hw, hshown, hresult, rfl⟩
  · obtain ⟨name, shown, result⟩ := line
    rintro ⟨hv, hshown, hresult, hname⟩
    simp only at hshown hresult hname
    simp [workOut, hv, hshown, hresult, hname]

theorem workOut_name {s : State α} {e : Entry α} {v : Quantity α} {line : Line}
    (h : s.workOut e = .ok (v, line)) : line.name = e.name.map s.nameOf :=
  (workOut_eq_ok.mp h).2.2.2

theorem evaluated_eq_ok {s : State α} {value : Expr α} {hint : Option (UnitHint α)}
    {v : Quantity α} {shown result : String} :
    s.evaluated value hint = .ok (v, shown, result) ↔
      (value.rename s.nameOf).eval s.scope = .ok v ∧
      Typeset.expr (s.format none) (value.rename s.nameOf) = .ok shown ∧
      Typeset.quantity (s.format hint) v = .ok result := by
  constructor
  · intro h
    obtain ⟨w, hw, h⟩ := bind_eq_ok.mp h
    obtain ⟨text, htext, h⟩ := bind_eq_ok.mp h
    obtain ⟨text', htext', h⟩ := bind_eq_ok.mp h
    cases h
    exact ⟨hw, htext, htext'⟩
  · rintro ⟨hv, hshown, hresult⟩
    simp [evaluated, hv, hshown, hresult]

theorem workOut_printed (s : State α) (name : Option String) (value : Expr α)
    (hint : Option (UnitHint α)) : s.workOut ⟨name, value, some hint⟩ =
      s.evaluated value hint >>= fun (v, shown, result) ↦
        .ok (v, ⟨name.map s.nameOf, shown, some result⟩) := by
  simp [workOut, evaluated, resultOf, bind_assoc]

/-- Carrying out an entry is working it out and entering it.  A declaration shows its expression
before it evaluates it, the others evaluate first; that only matters where both fail. -/
theorem execute_entry {s t : State α} {statement : Statement α} {e : Entry α}
    (h : statement.asEntry = some e) :
    s.execute statement = .ok t ↔ ∃ v line, s.workOut e = .ok (v, line) ∧ t = s.enter line v := by
  cases statement with
  | declare name value =>
    obtain rfl : ⟨some name, value, none⟩ = e := Option.some.inj h
    rw [execute_declare]
    constructor
    · intro h
      obtain ⟨shown, hshown, h⟩ := bind_eq_ok.mp h
      obtain ⟨v, hv, h⟩ := bind_eq_ok.mp h
      exact ⟨v, ⟨some (s.nameOf name), shown, none⟩, by simp [workOut, resultOf, hv, hshown],
        (Except.ok.inj h).symm⟩
    · rintro ⟨v, ⟨_, shown, _⟩, h, rfl⟩
      obtain ⟨hv, hshown, ⟨⟩, rfl⟩ := workOut_eq_ok.mp h
      rw [hshown, ok_bind, hv]
      rfl
  | print value hint =>
    obtain rfl : ⟨none, value, some hint⟩ = e := Option.some.inj h
    rw [execute_print, workOut_printed]
    cases s.evaluated value hint with
    | error e => simp
    | ok r =>
      obtain ⟨v, shown, result⟩ := r
      constructor
      · intro h
        exact ⟨v, ⟨none, shown, some result⟩, rfl, (Except.ok.inj h).symm⟩
      · rintro ⟨_, _, ⟨⟩, rfl⟩
        rfl
  | declarePrint name value hint =>
    obtain rfl : ⟨some name, value, some hint⟩ = e := Option.some.inj h
    rw [execute_declarePrint, workOut_printed]
    cases s.evaluated value hint with
    | error e => simp
    | ok r =>
      obtain ⟨v, shown, result⟩ := r
      constructor
      · intro h
        exact ⟨v, ⟨some (s.nameOf name), shown, some result⟩, rfl, (Except.ok.inj h).symm⟩
      · rintro ⟨_, _, ⟨⟩, rfl⟩
        rfl
  | rename | digits | scientific | gap | table | raw => cases h

/-! ## What an entry depends on -/

/-- Two states with the same names and formats, in which the identifiers of an entry have the same
values, work out the same. -/
theorem workOut_congr {s t : State α} {e : Entry α} (hnames : t.nameOf = s.nameOf)
    (hdigits : t.digits = s.digits) (hscientific : t.scientific = s.scientific)
    (hscope : ∀ name, Occurs (.ident name) (e.value.rename s.nameOf) →
      t.scope.find? name = s.scope.find? name) :
    t.workOut e = s.workOut e := by
  have hformat : t.format = s.format := by
    funext hint
    rw [format, format, hdigits, hscientific]
  have hresult : t.resultOf = s.resultOf := by
    funext v printed
    cases printed with
    | none => rfl
    | some hint => rw [resultOf, resultOf, hformat]
  simp only [workOut, hnames, hformat, hresult, Expr.eval_congr hscope]

/-- Entering a line under a name that does not occur in an entry changes nothing for that entry. -/
theorem workOut_enter {s : State α} {line : Line} {e : Entry α}
    (h : ∀ name, line.name = some name → ¬Occurs (.ident name) (e.value.rename s.nameOf))
    (v : Quantity α) : (s.enter line v).workOut e = s.workOut e := by
  refine workOut_congr (enter_nameOf s line v) (enter_digits s line v)
    (enter_scientific s line v) fun name hname ↦ ?_
  rw [enter_find?, if_neg fun hline ↦ h name hline hname]

/-- The line that a statement writes, if it is an entry that can be worked out. -/
def line? (s : State α) (statement : Statement α) : Option Line :=
  statement.asEntry.bind fun e ↦ (s.workOut e).toOption.map Prod.snd

theorem line?_entry {s : State α} {statement : Statement α} {e : Entry α} {v : Quantity α}
    {line : Line} (h : statement.asEntry = some e) (hwork : s.workOut e = .ok (v, line)) :
    s.line? statement = some line := by
  rw [line?, h, Option.bind_some, hwork]
  rfl

end State

/-! ## Runs -/

theorem run_cons_eq_done {s t : State α} {n : Nat} {statement : Statement α} {rest : Program α} :
    run s ((n, statement) :: rest) = ⟨t, none⟩ ↔
      ∃ u, s.execute statement = .ok u ∧ run u rest = ⟨t, none⟩ := by
  rw [run_cons]
  cases s.execute statement <;> simp

theorem stopped_eq_none {r : Run α} : r.stopped = none ↔ ∃ t, r = ⟨t, none⟩ := by
  constructor
  · intro h
    exact ⟨r.state, congrArg (Run.mk r.state) h⟩
  · rintro ⟨t, rfl⟩
    rfl

/-- The lines of the entries that a run of a program carries out. -/
def transcript (s : State α) : Program α → List Line
  | [] => []
  | (_, statement) :: rest =>
    match s.execute statement with
    | .ok t => (s.line? statement).toList ++ transcript t rest
    | .error _ => []

theorem transcript_cons {s t : State α} {statement : Statement α}
    (h : s.execute statement = .ok t) (n : Nat) (rest : Program α) :
    transcript s ((n, statement) :: rest) = (s.line? statement).toList ++ transcript t rest := by
  rw [transcript, h]

/-- Where all statements are entries, a run writes the lines of its transcript. -/
theorem run_output {s : State α} {program : Program α}
    (hentries : ∀ p ∈ program, ∃ e, p.2.asEntry = some e) (h : (run s program).stopped = none) :
    (run s program).state.output =
      s.output ++ String.join ((transcript s program).map Line.text) := by
  induction program generalizing s with
  | nil => simp [transcript, run]
  | cons p rest ih =>
    obtain ⟨n, statement⟩ := p
    obtain ⟨⟨e, he⟩, hrest⟩ := List.forall_mem_cons.mp hentries
    obtain ⟨t, ht⟩ := stopped_eq_none.mp h
    obtain ⟨u, hexecute, hrun⟩ := run_cons_eq_done.mp ht
    obtain ⟨v, line, hwork, rfl⟩ := (State.execute_entry he).mp hexecute
    have hoff := ih hrest (stopped_eq_none.mpr ⟨t, hrun⟩)
    rw [hrun] at hoff
    rw [ht, hoff, transcript_cons hexecute, State.line?_entry he hwork, State.enter_output]
    simp [String.append_assoc]

/-! ## Two declarations -/

/-- Two entries, the second of which does not use the name that the first declares: both are worked
out in the state that the first one starts in. -/
theorem run_two_entries {s t : State α} {first second : Statement α} {e f : Entry α} {m n : Nat}
    (hfirst : first.asEntry = some e) (hsecond : second.asEntry = some f)
    (h : ∀ name, e.name.map s.nameOf = some name →
      ¬Occurs (.ident name) (f.value.rename s.nameOf)) :
    run s [(m, first), (n, second)] = ⟨t, none⟩ ↔
      ∃ v l w k, s.workOut e = .ok (v, l) ∧ s.workOut f = .ok (w, k) ∧
        t = (s.enter l v).enter k w := by
  constructor
  · intro hrun
    obtain ⟨_, hexecute, hrun⟩ := run_cons_eq_done.mp hrun
    obtain ⟨v, l, hv, rfl⟩ := (State.execute_entry hfirst).mp hexecute
    obtain ⟨_, hexecute, hrun⟩ := run_cons_eq_done.mp hrun
    obtain ⟨w, k, hw, rfl⟩ := (State.execute_entry hsecond).mp hexecute
    obtain ⟨rfl, -⟩ := (Run.mk.injEq ..).mp hrun
    have hname := State.workOut_name hv
    rw [State.workOut_enter fun name hl ↦ h name (hname ▸ hl)] at hw
    exact ⟨v, l, w, k, hv, hw, rfl⟩
  · rintro ⟨v, l, w, k, hv, hw, rfl⟩
    have hname := State.workOut_name hv
    rw [← State.workOut_enter fun name hl ↦ h name (hname ▸ hl)] at hw
    exact run_cons_eq_done.mpr ⟨_, (State.execute_entry hfirst).mpr ⟨v, l, hv, rfl⟩,
      run_cons_eq_done.mpr ⟨_, (State.execute_entry hsecond).mpr ⟨w, k, hw, rfl⟩, rfl⟩⟩

/-- **Declarations that do not use each other commute.**  Let two declarations, plain or to print,
declare names that are called differently, and let neither expression, its names called as they are
at this point, hold the name of the other.  Either both orders are carried out or none is.  Then
every name has the same value in the end, names and formats are the same, and the two lines, which
are those that each declaration writes by itself, are swapped. -/
theorem declarations_commute (s : State α) {first second : Statement α} {x y : String}
    {e f : Expr α} (hfirst : first.Declares x e) (hsecond : second.Declares y f)
    (hnames : s.nameOf x ≠ s.nameOf y)
    (he : ¬Occurs (.ident (s.nameOf y)) (e.rename s.nameOf))
    (hf : ¬Occurs (.ident (s.nameOf x)) (f.rename s.nameOf)) (m n m' n' : Nat) :
    ((run s [(m, first), (n, second)]).stopped = none ↔
      (run s [(m', second), (n', first)]).stopped = none) ∧
    ∀ t u, run s [(m, first), (n, second)] = ⟨t, none⟩ →
      run s [(m', second), (n', first)] = ⟨u, none⟩ →
      (∀ name, t.scope.find? name = u.scope.find? name) ∧
      t.names = u.names ∧ t.digits = u.digits ∧ t.scientific = u.scientific ∧
      ∃ a b, ∃ l k : Line, s.execute first = .ok a ∧ s.execute second = .ok b ∧
        a.output = s.output ++ l.text ∧ b.output = s.output ++ k.text ∧
        t.output = s.output ++ l.text ++ k.text ∧ u.output = s.output ++ k.text ++ l.text := by
  obtain ⟨p, hfirst⟩ := hfirst
  obtain ⟨p', hsecond⟩ := hsecond
  have hxy {t} := run_two_entries (t := t) (m := m) (n := n) hfirst hsecond fun name h ↦
    Option.some.inj h ▸ hf
  have hyx {t} := run_two_entries (t := t) (m := m') (n := n') hsecond hfirst fun name h ↦
    Option.some.inj h ▸ he
  refine ⟨?_, fun t u ht hu ↦ ?_⟩
  · simp only [stopped_eq_none, hxy, hyx]
    constructor
    · rintro ⟨-, v, l, w, k, hv, hw, -⟩
      exact ⟨_, w, k, v, l, hw, hv, rfl⟩
    · rintro ⟨-, w, k, v, l, hw, hv, -⟩
      exact ⟨_, v, l, w, k, hv, hw, rfl⟩
  · obtain ⟨v, l, w, k, hv, hw, rfl⟩ := hxy.mp ht
    obtain ⟨w', k', v', l', hw', hv', rfl⟩ := hyx.mp hu
    obtain ⟨rfl, rfl⟩ : v = v' ∧ l = l' := by simpa using hv.symm.trans hv'
    obtain ⟨rfl, rfl⟩ : w = w' ∧ k = k' := by simpa using hw.symm.trans hw'
    have hl : l.name = some (s.nameOf x) := State.workOut_name hv
    have hk : k.name = some (s.nameOf y) := State.workOut_name hw
    refine ⟨fun name ↦ ?_, by simp, by simp, by simp, s.enter l v, s.enter k w, l, k,
      (State.execute_entry hfirst).mpr ⟨v, l, hv, rfl⟩,
      (State.execute_entry hsecond).mpr ⟨w, k, hw, rfl⟩, by simp, by simp, by simp, by simp⟩
    -- A name is bound by at most one of the two.
    simp only [State.enter_find?, hl, hk, Option.some.injEq]
    by_cases hname : s.nameOf x = name
    · rw [if_pos hname, if_pos hname, if_neg fun h ↦ hnames (hname.trans h.symm)]
    · rw [if_neg hname, if_neg hname]

/-- `x = 2` and `y = e = ?` in either order. -/
theorem declarations_commute_constant :
    ∃ t u : State Float,
      run (State.initial 3 false) [(1, .declare "x" (.literal (.ofScalar 2))),
        (2, .declarePrint "y" (.ident "e") none)] = ⟨t, none⟩ ∧
      run (State.initial 3 false) [(1, .declarePrint "y" (.ident "e") none),
        (2, .declare "x" (.literal (.ofScalar 2)))] = ⟨u, none⟩ ∧
      ∀ name, t.scope.find? name = u.scope.find? name := by
  have hx : ¬Occurs (.ident "x") ((.ident "e" : Expr Float).rename
      (State.initial 3 false : State Float).nameOf) := by
    intro h
    obtain ⟨name, hname, hx⟩ := Expr.exists_of_occurs_rename h
    cases hname
    exact absurd hx (by decide)
  have hfirst : (Statement.declare "x" (.literal (.ofScalar 2)) : Statement Float).Declares "x"
      (.literal (.ofScalar 2)) := ⟨none, rfl⟩
  have hsecond : (Statement.declarePrint "y" (.ident "e") none : Statement Float).Declares "y"
      (.ident "e") := ⟨some none, rfl⟩
  obtain ⟨hdone, hstates⟩ := declarations_commute (State.initial 3 false) hfirst hsecond
    (by decide) nofun hx 1 2 1 2
  obtain ⟨t, ht⟩ := stopped_eq_none.mp (by decide +kernel :
    (run (State.initial 3 false : State Float) [(1, .declare "x" (.literal (.ofScalar 2))),
      (2, .declarePrint "y" (.ident "e") none)]).stopped = none)
  obtain ⟨u, hu⟩ := stopped_eq_none.mp (hdone.mp (stopped_eq_none.mpr ⟨t, ht⟩))
  exact ⟨t, u, ht, hu, (hstates t u ht hu).1⟩

end Document
end Mensura
