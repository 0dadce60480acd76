import Mathlib.Data.List.Pairwise
import Mensura.Proofs.Document.Entry

/-!
# The scope that a run ends in

Binding a name again moves it to the end of the scope.  So what a number of bindings comes to is
decided by the last one of each name (`Scope.bindings_bindAll`), and a run of a program binds what
its declarations declare, each under the name that its own name is called at that point
(`run_scope`).  No other statement binds anything.

`run_bindings` puts these together for the scope that programs start from.
-/

set_option autoImplicit false

namespace Mensura

/-! ## The last of each name -/

section LastOnes

variable {β : Type} {p : String × β} {l : List (String × β)}

/-- Each name once, at its last place. -/
def lastOnes (l : List (String × β)) : List (String × β) :=
  l.pwFilter fun p q ↦ p.1 ≠ q.1

theorem forall_mem_lastOnes : (∀ q ∈ lastOnes l, p.1 ≠ q.1) ↔ p.1 ∉ l.map Prod.fst := by
  have hall := List.forall_mem_pwFilter (R := fun p q : String × β ↦ p.1 ≠ q.1)
    (fun {x y z} hxz ↦ or_iff_not_imp_left.mpr fun hxy ↦ not_not.mp hxy ▸ hxz) p l
  rw [lastOnes, hall, List.mem_map]
  exact ⟨fun h ⟨q, hq, heq⟩ ↦ h q hq heq.symm, fun h q hq heq ↦ h ⟨q, hq, heq.symm⟩⟩

theorem lastOnes_cons_of_mem (h : p.1 ∈ l.map Prod.fst) : lastOnes (p :: l) = lastOnes l :=
  List.pwFilter_cons_of_neg (forall_mem_lastOnes.not.mpr (not_not.mpr h))

theorem lastOnes_cons_of_not_mem (h : p.1 ∉ l.map Prod.fst) :
    lastOnes (p :: l) = p :: lastOnes l :=
  List.pwFilter_cons_of_pos (forall_mem_lastOnes.mpr h)

end LastOnes

variable {α : Type} [Scalar α]

/-! ## Many bindings -/

namespace Scope

/-- Binds one name after the other. -/
def bindAll (s : Scope α) (l : List (String × Quantity α)) : Scope α :=
  l.foldl (fun s p ↦ s.bind p.1 p.2) s

/-- **Only the last binding of each name counts**, and puts the name in its place. -/
theorem bindings_bindAll (s : Scope α) (l : List (String × Quantity α)) :
    (s.bindAll l).bindings =
      s.bindings.filter (fun b ↦ b.1 ∉ l.map Prod.fst) ++ lastOnes l := by
  induction l generalizing s with
  | nil =>
    have hall := List.filter_eq_self.mpr fun (b : String × Quantity α) (_ : b ∈ s.bindings) ↦
      decide_eq_true (List.not_mem_nil (a := b.1))
    exact hall.symm.trans (List.append_nil _).symm
  | cons p l ih =>
    have hstep : s.bindAll (p :: l) = (s.bind p.1 p.2).bindAll l := rfl
    have hsame (b : String × Quantity α) : (decide (b.1 ∉ l.map Prod.fst) && decide (b.1 ≠ p.1)) =
        decide (b.1 ∉ (p :: l).map Prod.fst) := by
      rw [← Bool.decide_and]
      exact decide_eq_decide.mpr (by rw [List.map_cons, List.mem_cons, not_or, and_comm])
    rw [hstep, ih, bind, List.filter_append, List.filter_filter]
    simp only [hsame]
    by_cases hlater : p.1 ∈ l.map Prod.fst
    · -- It is bound again later on, so it is not kept here.
      rw [lastOnes_cons_of_mem hlater, List.filter_cons_of_neg (by simpa using hlater),
        List.filter_nil, List.append_nil]
    · rw [lastOnes_cons_of_not_mem hlater, List.filter_cons_of_pos (by simpa using hlater),
        List.filter_nil, List.append_assoc, List.singleton_append]

/-- Binding keeps the names apart. -/
theorem nodup_bind {s : Scope α} (h : (s.bindings.map Prod.fst).Nodup) (name : String)
    (v : Quantity α) : ((s.bind name v).bindings.map Prod.fst).Nodup := by
  rw [bind, List.map_append, List.nodup_append]
  refine ⟨h.sublist (List.filter_sublist.map _), List.pairwise_singleton _ _, ?_⟩
  rintro x hx _ hy rfl
  obtain ⟨b, hb, rfl⟩ := List.mem_map.mp hx
  exact absurd (List.mem_singleton.mp hy) (of_decide_eq_true (List.mem_filter.mp hb).2)

theorem nodup_bindAll {s : Scope α} (h : (s.bindings.map Prod.fst).Nodup)
    (l : List (String × Quantity α)) : ((s.bindAll l).bindings.map Prod.fst).Nodup := by
  induction l generalizing s with
  | nil => exact h
  | cons p l ih => exact ih (nodup_bind h p.1 p.2)

end Scope

namespace Document

namespace State

/-! ## What a statement binds -/

/-- What a statement declares at a point: its name as it is called there, and its value there. -/
def declaration? (s : State α) (statement : Statement α) : Option (String × Quantity α) := do
  let e ← statement.asEntry
  let name ← e.name
  let v ← ((e.value.rename s.nameOf).eval s.scope).toOption
  return (s.nameOf name, v)

theorem declaration?_of_declares {s : State α} {statement : Statement α} {name : String}
    {value : Expr α} {v : Quantity α} (h : statement.Declares name value)
    (hv : (value.rename s.nameOf).eval s.scope = .ok v) :
    s.declaration? statement = some (s.nameOf name, v) := by
  obtain ⟨printed, h⟩ := h
  simp [declaration?, h, hv, Except.toOption]

/-- **A statement that is carried out binds what it declares, and nothing else.** -/
theorem execute_scope {s t : State α} {statement : Statement α}
    (h : s.execute statement = .ok t) :
    t.scope = s.scope.bindAll (s.declaration? statement).toList := by
  cases hentry : statement.asEntry with
  | none =>
    have hnone : s.declaration? statement = none := by rw [declaration?, hentry]; rfl
    have hscope : t.scope = s.scope := by
      cases statement with
      | declare | print | declarePrint => cases hentry
      | rename | digits | scientific | gap | table | raw =>
        cases h
        rfl
    rw [hscope, hnone]
    rfl
  | some e =>
    obtain ⟨v, line, hwork, rfl⟩ := (execute_entry hentry).mp h
    obtain ⟨hv, -, -, hname⟩ := workOut_eq_ok.mp hwork
    obtain ⟨name, value, printed⟩ := e
    rw [enter, hname]
    cases name with
    | none =>
      have hnone : s.declaration? statement = none := by simp [declaration?, hentry]
      rw [hnone]
      rfl
    | some name =>
      rw [declaration?_of_declares ⟨printed, hentry⟩ hv]
      rfl

/-- A declaration that is carried out has a value. -/
theorem exists_declaration {s t : State α} {statement : Statement α} {name : String}
    {value : Expr α} (h : s.execute statement = .ok t) (hdeclares : statement.Declares name value) :
    ∃ v, (value.rename s.nameOf).eval s.scope = .ok v ∧
      s.declaration? statement = some (s.nameOf name, v) := by
  obtain ⟨printed, hentry⟩ := id hdeclares
  obtain ⟨v, line, hwork, -⟩ := (execute_entry hentry).mp h
  obtain ⟨hv, -⟩ := workOut_eq_ok.mp hwork
  exact ⟨v, hv, declaration?_of_declares hdeclares hv⟩

theorem declaration?_eq_none {s : State α} {statement : Statement α}
    (h : ∀ name value, ¬statement.Declares name value) : s.declaration? statement = none := by
  cases hentry : statement.asEntry with
  | none => rw [declaration?, hentry]; rfl
  | some e =>
    obtain ⟨_ | name, value, printed⟩ := e
    · simp [declaration?, hentry]
    · exact absurd ⟨printed, hentry⟩ (h name value)

end State

/-! ## Runs -/

/-- The names and values that a run of a program declares, one after the other. -/
def declarations (s : State α) : Program α → List (String × Quantity α)
  | [] => []
  | (_, statement) :: rest =>
    match s.execute statement with
    | .ok t => (s.declaration? statement).toList ++ declarations t rest
    | .error _ => []

theorem declarations_cons {s t : State α} {statement : Statement α}
    (h : s.execute statement = .ok t) (n : Nat) (rest : Program α) :
    declarations s ((n, statement) :: rest) =
      (s.declaration? statement).toList ++ declarations t rest := by
  rw [declarations, h]

/-- A run binds what its declarations declare. -/
theorem run_scope {s t : State α} {program : Program α} (h : run s program = ⟨t, none⟩) :
    t.scope = s.scope.bindAll (declarations s program) := by
  induction program generalizing s with
  | nil =>
    cases h
    rfl
  | cons p rest ih =>
    obtain ⟨n, statement⟩ := p
    obtain ⟨u, hexecute, hrun⟩ := run_cons_eq_done.mp h
    rw [ih hrun, State.execute_scope hexecute, declarations_cons hexecute, Scope.bindAll,
      Scope.bindAll, Scope.bindAll, List.foldl_append]

/-- The declarations of a run, taken apart at one of its statements. -/
theorem declarations_split {s t : State α} {before after : Program α} {n : Nat}
    {statement : Statement α} (h : run s (before ++ (n, statement) :: after) = ⟨t, none⟩) :
    ∃ u w, run s before = ⟨u, none⟩ ∧ u.execute statement = .ok w ∧
      declarations s (before ++ (n, statement) :: after) =
        declarations s before ++ (u.declaration? statement).toList ++ declarations w after := by
  induction before generalizing s with
  | nil =>
    obtain ⟨w, hexecute, -⟩ := run_cons_eq_done.mp h
    exact ⟨s, w, rfl, hexecute, declarations_cons hexecute n after⟩
  | cons p before ih =>
    obtain ⟨m, first⟩ := p
    obtain ⟨r, hfirst, hrun⟩ := run_cons_eq_done.mp h
    obtain ⟨u, w, hbefore, hexecute, hsplit⟩ := ih hrun
    refine ⟨u, w, run_cons_eq_done.mpr ⟨r, hfirst, hbefore⟩, hexecute, ?_⟩
    rw [List.cons_append, declarations_cons hfirst, hsplit, declarations_cons hfirst]
    simp only [List.append_assoc]

/-- **The scope that a run ends in is decided by the last declaration of each name.**  It holds each
name once: first the constants that are not declared again, in their order, and then the declared
names in the order of their last declarations, with the values those had.  A declaration declares
its name as it is called at that point, with the value of its expression there; every other
statement leaves the scope as it is. -/
theorem run_bindings {digits : Nat} {scientific : Bool} {program : Program α} {t : State α}
    (h : run (State.initial digits scientific) program = ⟨t, none⟩) :
    (t.scope.bindings.map Prod.fst).Nodup ∧
    t.scope.bindings = Scope.constants.bindings.filter (fun b ↦
        b.1 ∉ (declarations (State.initial digits scientific) program).map Prod.fst) ++
      lastOnes (declarations (State.initial digits scientific) program) ∧
    ∀ before n statement after, program = before ++ (n, statement) :: after →
      ∃ u w, run (State.initial digits scientific) before = ⟨u, none⟩ ∧
        u.execute statement = .ok w ∧
        declarations (State.initial digits scientific) program =
          declarations (State.initial digits scientific) before ++
            (u.declaration? statement).toList ++ declarations w after ∧
        (∀ name value, statement.Declares name value →
          ∃ v, (value.rename u.nameOf).eval u.scope = .ok v ∧
            u.declaration? statement = some (u.nameOf name, v)) ∧
        ((∀ name value, ¬statement.Declares name value) →
          u.declaration? statement = none ∧ w.scope = u.scope) := by
  have hscope := run_scope h
  have hconstants : ((Scope.constants : Scope α).bindings.map Prod.fst).Nodup := by
    change ["\\pi", "e"].Nodup
    decide
  refine ⟨?_, ?_, ?_⟩
  · rw [hscope]
    exact Scope.nodup_bindAll hconstants _
  · rw [hscope]
    exact Scope.bindings_bindAll _ _
  · rintro before n statement after rfl
    obtain ⟨u, w, hbefore, hexecute, hsplit⟩ := declarations_split h
    refine ⟨u, w, hbefore, hexecute, hsplit, fun name value ↦ State.exists_declaration hexecute,
      fun hnone ↦ ⟨State.declaration?_eq_none hnone, ?_⟩⟩
    rw [State.execute_scope hexecute, State.declaration?_eq_none hnone]
    rfl

/-- The circle constant is declared anew, and a variable once more under an alias. -/
def redeclaring : Program Float :=
  [(1, .declare "x" (.literal (.ofScalar 1))), (2, .declarePrint "pi" (.ident "x") none),
    (3, .rename "y" "x"), (4, .declare "z" (.ident "e")), (5, .print (.ident "y") none),
    (6, .declare "y" (.ident "pi"))]

/-- What is declared again moves behind the rest. -/
theorem run_bindings_redeclaring : ∃ t, run (State.initial 3 false) redeclaring = ⟨t, none⟩ ∧
    (t.scope.bindings.map Prod.fst).Nodup ∧
    t.scope.bindings.map Prod.fst = ["e", "\\pi", "z", "x"] := by
  obtain ⟨t, ht⟩ := stopped_eq_none.mp
    (by decide +kernel : (run (State.initial 3 false) redeclaring).stopped = none)
  obtain ⟨hnodup, hbindings, -⟩ := run_bindings ht
  refine ⟨t, ht, hnodup, ?_⟩
  rw [hbindings]
  decide +kernel

end Document
end Mensura
