import Mensura.Proofs.Document.Entry
import Mensura.Proofs.Typeset.Shown

/-!
# Aliases

An alias statement gives a name another one, under which it is displayed, declared and looked up
from then on.  Declarations find the other name by themselves, uses by renaming the expression;
functions, attached units and identifiers that are no names keep what they are called.

Two states are `Renamed` if all that differs between them is what names are called.  An entry is
worked out in one as in the other (`Renamed.workOut_iff`), and they stay renamed when its line is
entered (`Renamed.enter`); by induction so do the states that a whole program reaches
(`Renamed.run_iff`).  Hence aliases of names that are declared before they are used, under names
that the program does not hold, change nothing but the names (`aliases_only_rename`).
-/

set_option autoImplicit false

namespace Mensura

open Mensura.Expr (Occurs)

variable {α : Type} [Scalar α]

namespace Document

/-! ## Names -/

/-- The names with a meaning of their own. -/
def reserved : List String :=
  ["pi", "\\pi", "e"]

/-- The program declares the name, or an expression of it holds the name. -/
def Mentions (program : Program α) (name : String) : Prop :=
  ∃ p ∈ program, ∃ e, p.2.asEntry = some e ∧ (e.name = some name ∨ Occurs (.ident name) e.value)

/-- Each of the names is declared before it is used. -/
def DeclaredFirst (names : List String) (program : Program α) : Prop :=
  ∀ done n statement rest e name, program = done ++ (n, statement) :: rest →
    statement.asEntry = some e → name ∈ names → Occurs (.ident name) e.value →
      ∃ p ∈ done, ∃ value, p.2.Declares name value

/-- Other names for some of the names of a program, told apart from each other and from all that the
program names. -/
structure Aliases (names : List String) (latex : String → String) (program : Program α) : Prop where
  declared : DeclaredFirst names program
  own : ∀ name ∈ names, name ∉ reserved
  injective : ∀ a ∈ names, ∀ b ∈ names, latex a = latex b → a = b
  latex_own : ∀ name ∈ names, latex name ∉ reserved
  fresh : ∀ name ∈ names, ¬Mentions program (latex name)

/-- What a name is called under the aliases of some names. -/
def aliasOf (names : List String) (latex : String → String) (name : String) : String :=
  if name ∈ names then latex name else name

/-! ## Renamed states -/

/-- The same line under another name; its formula is that of the renamed expression. -/
structure Line.Renamed (f : String → String) (l k : Line) : Prop where
  name : k.name = l.name.map f
  result : k.result = l.result

/-- Two states that differ in what names are called and in what was written.  The names that are
bound are `Known`, which are those that the renaming tells apart. -/
structure State.Renamed (f : String → String) (Known : String → Prop) (s t : State α) : Prop where
  nameOf : t.nameOf = f ∘ s.nameOf
  digits : t.digits = s.digits
  scientific : t.scientific = s.scientific
  bindings : t.scope.bindings = s.scope.bindings.map fun b ↦ (f b.1, b.2)
  known : ∀ b ∈ s.scope.bindings, Known b.1

section Renamed

variable {f : String → String} {Known : String → Prop}
  (hf : ∀ a b, Known a → Known b → f a = f b → a = b)

include hf

theorem lookup_renamed {β : Type} {bs : List (String × β)} (hbs : ∀ b ∈ bs, Known b.1)
    {name : String} (hname : Known name) :
    (bs.map fun b ↦ (f b.1, b.2)).lookup (f name) = bs.lookup name := by
  induction bs with
  | nil => rfl
  | cons b bs ih =>
    obtain ⟨hb, hbs⟩ := List.forall_mem_cons.mp hbs
    have hiff : f name = f b.1 ↔ name = b.1 := ⟨hf _ _ hname hb, congrArg f⟩
    rw [List.map_cons, lookup_cons, ih hbs, lookup_cons]
    simp only [hiff]

namespace State

variable {s t : State α}

/-- A name stands for the same under its other name if it is bound, or has no other name. -/
theorem Renamed.resolve_eq (h : Renamed f Known s t) {name : String} (hname : Known name)
    (hbound : f name ≠ name → (s.scope.find? name).isSome) :
    Expr.resolve t.scope (f name) = Expr.resolve s.scope name := by
  have hfind : t.scope.find? (f name) = s.scope.find? name := by
    rw [Scope.find?, Scope.find?, h.bindings, lookup_renamed hf h.known hname]
  by_cases hsame : f name = name
  · rw [Expr.resolve, hfind, hsame, Expr.resolve]
  · obtain ⟨q, hq⟩ := Option.isSome_iff_exists.mp (hbound hsame)
    rw [Expr.resolve, hfind, Expr.resolve, hq]

/-- An entry is worked out alike in renamed states. -/
theorem Renamed.workOut_iff (h : Renamed f Known s t) {e : Entry α}
    (huses : ∀ x, Occurs (.ident x) e.value → Known (s.nameOf x) ∧
      (f (s.nameOf x) ≠ s.nameOf x → (s.scope.find? (s.nameOf x)).isSome)) (v : Quantity α) :
    (∀ l, s.workOut e = .ok (v, l) → ∃ k, t.workOut e = .ok (v, k) ∧ l.Renamed f k) ∧
    ∀ k, t.workOut e = .ok (v, k) → ∃ l, s.workOut e = .ok (v, l) ∧ l.Renamed f k := by
  have hvalue : e.value.rename t.nameOf = (e.value.rename s.nameOf).rename f := by
    rw [Expr.rename_rename, h.nameOf]
  have heval : (e.value.rename t.nameOf).eval t.scope = (e.value.rename s.nameOf).eval s.scope := by
    rw [hvalue]
    refine Expr.eval_rename fun name hname ↦ ?_
    obtain ⟨x, hx, rfl⟩ := Expr.exists_of_occurs_rename hname
    exact h.resolve_eq hf (huses x hx).1 (huses x hx).2
  have hformat : t.format = s.format := by
    funext hint
    rw [format, format, h.digits, h.scientific]
  have hshown : Typeset.Shown (t.format none) (e.value.rename t.nameOf) ↔
      Typeset.Shown (s.format none) (e.value.rename s.nameOf) := by
    rw [hvalue, hformat, Typeset.shown_rename]
  have hresult : t.resultOf v e.printed = s.resultOf v e.printed := by
    cases e.printed with
    | none => rfl
    | some hint => rw [resultOf, resultOf, hformat]
  have hname : e.name.map t.nameOf = (e.name.map s.nameOf).map f := by
    rw [Option.map_map, h.nameOf]
  constructor
  · intro l hl
    obtain ⟨hv, hformula, hr, hn⟩ := workOut_eq_ok.mp hl
    obtain ⟨shown, hk⟩ := hshown.mpr ⟨_, hformula⟩
    exact ⟨⟨l.name.map f, shown, l.result⟩,
      workOut_eq_ok.mpr ⟨heval ▸ hv, hk, hresult ▸ hr, by rw [hname, hn]⟩, rfl, rfl⟩
  · intro k hk
    obtain ⟨hv, hformula, hr, hn⟩ := workOut_eq_ok.mp hk
    obtain ⟨shown, hl⟩ := hshown.mp ⟨_, hformula⟩
    exact ⟨⟨e.name.map s.nameOf, shown, k.result⟩,
      workOut_eq_ok.mpr ⟨heval ▸ hv, hl, hresult ▸ hr, rfl⟩, by rw [hn, hname], rfl⟩

/-- Entering a line under its two names leaves renamed states renamed. -/
theorem Renamed.enter (h : Renamed f Known s t) {l k : Line} (hline : l.Renamed f k)
    (hknown : ∀ name, l.name = some name → Known name) (v : Quantity α) :
    Renamed f Known (s.enter l v) (t.enter k v) where
  nameOf := by rw [enter_nameOf, enter_nameOf, h.nameOf]
  digits := by rw [enter_digits, enter_digits, h.digits]
  scientific := by rw [enter_scientific, enter_scientific, h.scientific]
  bindings := by
    rw [State.enter, State.enter, hline.name]
    cases hname : l.name with
    | none => exact h.bindings
    | some name =>
      have hfilter : ∀ b ∈ s.scope.bindings, decide (f b.1 ≠ f name) = decide (b.1 ≠ name) := by
        intro b hb
        rw [decide_eq_decide]
        exact not_congr ⟨hf _ _ (h.known b hb) (hknown name hname), congrArg f⟩
      simp only [Option.map_some, bind, write, Scope.bind, h.bindings, List.filter_map,
        List.map_append, List.map_cons, List.map_nil, Function.comp_def,
        List.filter_congr hfilter]
  known := by
    rw [State.enter]
    cases hname : l.name with
    | none => exact h.known
    | some name =>
      intro b hb
      rcases List.mem_append.mp hb with hb | hb
      · exact h.known b (List.mem_filter.mp hb).1
      · rw [List.mem_singleton.mp hb]
        exact hknown name hname

end State
end Renamed

/-! ## Renamed runs -/

/-- The names that the statements declare are bound. -/
def State.Binds (s : State α) (done : Program α) : Prop :=
  ∀ p ∈ done, ∀ name value, p.2.Declares name value → (s.scope.find? (s.nameOf name)).isSome

theorem State.Binds.enter {s : State α} {done : Program α} (h : s.Binds done)
    {statement : Statement α} {e : Entry α} (he : statement.asEntry = some e) {line : Line}
    (hline : line.name = e.name.map s.nameOf) (n : Nat) (v : Quantity α) :
    (s.enter line v).Binds (done ++ [(n, statement)]) := by
  intro p hp name value hdeclares
  rw [enter_nameOf, enter_find?]
  split
  · rfl
  · next hne =>
    rcases List.mem_append.mp hp with hp | hp
    · exact h p hp name value hdeclares
    · obtain ⟨printed, hname⟩ := hdeclares
      rw [List.mem_singleton.mp hp, he] at hname
      exact absurd (by rw [hline, Option.some.inj hname, Option.map_some]) hne

/-- No alias calls anything by this name. -/
def Unused (names : List String) (latex : String → String) (name : String) : Prop :=
  ∀ x ∈ names, latex x ≠ name

namespace Aliases

variable {names : List String} {latex : String → String} {program : Program α}
  (h : Aliases names latex program)

include h

theorem injective_of_unused (a b : String) (ha : Unused names latex a) (hb : Unused names latex b)
    (hab : aliasOf names latex a = aliasOf names latex b) : a = b := by
  rw [aliasOf, aliasOf] at hab
  split at hab <;> split at hab
  · next ha' hb' => exact h.injective a ha' b hb' hab
  · next ha' _ => exact absurd hab (hb a ha')
  · next hb' => exact absurd hab.symm (ha b hb')
  · exact hab

theorem unused_called {x : String} (hx : Mentions program x) : Unused names latex (called x) := by
  intro name hname heq
  rw [called] at heq
  split at heq
  · exact h.latex_own name hname (heq ▸ by decide)
  · exact h.fresh name hname (heq ▸ hx)

/-- What has an alias is called as itself without it. -/
theorem called_eq {x : String} (hx : x ∈ names) : called x = x :=
  if_neg fun hpi ↦ h.own x hx (by rw [hpi]; decide)

theorem mem_of_aliasOf_ne {x : String}
    (hx : aliasOf names latex (called x) ≠ called x) : x ∈ names := by
  have hmem : called x ∈ names := Decidable.byContradiction fun hnot ↦ hx (if_neg hnot)
  rw [called] at hmem
  split at hmem
  · exact absurd (by decide) (h.own _ hmem)
  · exact hmem

end Aliases

section Run

variable {names : List String} {latex : String → String}

/-- **Renamed states run alike.**  The names declared so far are bound, so every name that has an
alias is bound where it is used. -/
theorem Aliases.run_renamed {done rest : Program α} (h : Aliases names latex (done ++ rest))
    (hentries : ∀ p ∈ rest, ∃ e, p.2.asEntry = some e) {s t : State α}
    (hst : s.Renamed (aliasOf names latex) (Unused names latex) t) (hnames : s.nameOf = called)
    (hbound : s.Binds done) :
    ((run s rest).stopped = none ↔ (run t rest).stopped = none) ∧
    ((run s rest).stopped = none →
      (run s rest).state.Renamed (aliasOf names latex) (Unused names latex) (run t rest).state ∧
      (transcript t rest).map Line.name =
        (transcript s rest).map (fun l ↦ l.name.map (aliasOf names latex)) ∧
      (transcript t rest).map Line.result = (transcript s rest).map Line.result) := by
  have hf := h.injective_of_unused
  induction rest generalizing done s t with
  | nil => exact ⟨Iff.rfl, fun _ ↦ ⟨hst, rfl, rfl⟩⟩
  | cons p rest ih =>
    obtain ⟨n, statement⟩ := p
    obtain ⟨⟨e, he⟩, hrest⟩ := List.forall_mem_cons.mp hentries
    have hmentions {x : String} (hx : e.name = some x ∨ Occurs (.ident x) e.value) :
        Mentions (done ++ (n, statement) :: rest) x :=
      ⟨(n, statement), by simp, e, he, hx⟩
    have huses : ∀ x, Occurs (.ident x) e.value → Unused names latex (s.nameOf x) ∧
        (aliasOf names latex (s.nameOf x) ≠ s.nameOf x →
          (s.scope.find? (s.nameOf x)).isSome) := by
      intro x hx
      refine ⟨hnames ▸ h.unused_called (hmentions (.inr hx)), fun hne ↦ ?_⟩
      obtain ⟨p, hp, value, hdeclares⟩ := h.declared done n statement rest e x rfl he
        (h.mem_of_aliasOf_ne (hnames ▸ hne)) hx
      exact hbound p hp x value hdeclares
    rw [run_cons, run_cons]
    cases hs : s.execute statement with
    | error failure =>
      cases ht : t.execute statement with
      | error failure' => simp
      | ok t' =>
        obtain ⟨v, k, hk, -⟩ := (State.execute_entry he).mp ht
        obtain ⟨l, hl, -⟩ := (hst.workOut_iff hf huses v).2 k hk
        exact absurd ((State.execute_entry he).mpr ⟨v, l, hl, rfl⟩) (by rw [hs]; nofun)
    | ok s' =>
      obtain ⟨v, l, hl, rfl⟩ := (State.execute_entry he).mp hs
      obtain ⟨k, hk, hlk⟩ := (hst.workOut_iff hf huses v).1 l hl
      have ht := (State.execute_entry he).mpr ⟨v, k, hk, rfl⟩
      have hname := State.workOut_name hl
      have hknown : ∀ name, l.name = some name → Unused names latex name := by
        intro name hln
        obtain ⟨x, hx, rfl⟩ := Option.map_eq_some_iff.mp (hname.symm.trans hln)
        exact hnames ▸ h.unused_called (hmentions (.inl hx))
      have hstep : done ++ (n, statement) :: rest = (done ++ [(n, statement)]) ++ rest := by simp
      obtain ⟨hstopped, hdone⟩ := ih (hstep ▸ h) hrest (hst.enter hf hlk hknown v)
        (by rw [State.enter_nameOf, hnames]) (hbound.enter he hname n v)
      rw [ht, transcript_cons hs, transcript_cons ht, State.line?_entry he hl,
        State.line?_entry he hk]
      refine ⟨hstopped, fun hnone ↦ ?_⟩
      obtain ⟨hstates, hlineNames, hresults⟩ := hdone hnone
      exact ⟨hstates, by simp [hlk.name, hlineNames], by simp [hlk.result, hresults]⟩

/-- What a state is after alias statements. -/
def State.renameAll (s : State α) (latex : String → String) (names : List String) : State α :=
  names.foldl (fun s name ↦ s.rename name (latex name)) s

theorem run_aliases {aliases : Program α} (s : State α) (program : Program α)
    (haliases : aliases.map Prod.snd = names.map fun name ↦ .rename name (latex name)) :
    run s (aliases ++ program) = run (s.renameAll latex names) program ∧
      transcript s (aliases ++ program) = transcript (s.renameAll latex names) program := by
  induction aliases generalizing s names with
  | nil =>
    obtain rfl := List.map_eq_nil_iff.mp haliases.symm
    exact ⟨rfl, rfl⟩
  | cons p aliases ih =>
    obtain ⟨n, statement⟩ := p
    cases names with
    | nil => cases haliases
    | cons name names =>
      obtain ⟨rfl, haliases⟩ := List.cons.inj haliases
      exact ih (s.rename name (latex name)) (by simpa using haliases)

theorem State.renameAll_nameOf (s : State α) (name : String) :
    (s.renameAll latex names).nameOf name = if name ∈ names then latex name else s.nameOf name := by
  induction names generalizing s with
  | nil => simp [renameAll]
  | cons x names ih =>
    have hrename : (s.rename x (latex x)).nameOf name =
        if name = x then latex x else s.nameOf name := by
      rw [nameOf, State.rename, lookup_put]
      split <;> rfl
    rw [renameAll, List.foldl_cons, ← renameAll, ih, hrename]
    by_cases hx : name = x
    · simp [hx]
    · simp [hx]

/-- Aliases change nothing but the names. -/
theorem State.renameAll_eq (s : State α) :
    s.renameAll latex names = { s with names := (s.renameAll latex names).names } := by
  induction names generalizing s with
  | nil => rfl
  | cons name names ih => exact ih (s.rename name (latex name))

/-- The states behind the aliases and without them are renamed. -/
theorem Aliases.initial_renamed {program : Program α} (h : Aliases names latex program)
    (digits : Nat) (scientific : Bool) :
    (State.initial digits scientific).Renamed (aliasOf names latex) (Unused names latex)
      ((State.initial digits scientific : State α).renameAll latex names) where
  nameOf := by
    funext name
    rw [State.renameAll_nameOf, initial_nameOf, Function.comp_apply]
    split
    · next hname => rw [h.called_eq hname, aliasOf, if_pos hname]
    · next hname =>
      exact (Decidable.byContradiction fun hne ↦ hname (h.mem_of_aliasOf_ne hne)).symm
  digits := by rw [State.renameAll_eq]
  scientific := by rw [State.renameAll_eq]
  bindings := by
    have hpi : "\\pi" ∉ names := fun hmem ↦ h.own _ hmem (by decide)
    have he : "e" ∉ names := fun hmem ↦ h.own _ hmem (by decide)
    rw [State.renameAll_eq]
    simp [State.initial, Scope.constants, aliasOf, hpi, he]
  known := by
    intro b hb name hname heq
    have hreserved : b.1 ∈ reserved := by
      simp only [State.initial, Scope.constants, List.mem_cons, List.not_mem_nil, or_false] at hb
      rcases hb with rfl | rfl <;> simp [reserved]
    exact h.latex_own name hname (by rwa [heq])

/-- **Aliases only change what names are called.**  Let a program consist of declarations and values
to print, and let some of its names, each declared before it is used, be given other names that the
program does not hold.  With the alias statements before it the program runs to its end exactly if
it does without them.  The same values are then bound in the same order, under the other names; and
the lines that are written are the same but for the names, with the same results. -/
theorem aliases_only_rename (digits : Nat) (scientific : Bool) {program aliases : Program α}
    (hentries : ∀ p ∈ program, ∃ e, p.2.asEntry = some e) (h : Aliases names latex program)
    (haliases : aliases.map Prod.snd = names.map fun name ↦ .rename name (latex name)) :
    let alone := run (State.initial digits scientific) program
    let aliased := run (State.initial digits scientific) (aliases ++ program)
    let ls := transcript (State.initial digits scientific) program
    let ks := transcript (State.initial digits scientific) (aliases ++ program)
    (aliased.stopped = none ↔ alone.stopped = none) ∧
    (alone.stopped = none →
      aliased.state.scope.bindings =
        alone.state.scope.bindings.map (fun b ↦ (aliasOf names latex b.1, b.2)) ∧
      alone.state.output = header ++ String.join (ls.map Line.text) ∧
      aliased.state.output = header ++ String.join (ks.map Line.text) ∧
      ks.map Line.name = ls.map (fun l ↦ l.name.map (aliasOf names latex)) ∧
      ks.map Line.result = ls.map Line.result) := by
  intro alone aliased ls ks
  obtain ⟨hrun, htranscript⟩ := run_aliases (State.initial digits scientific) program haliases
  have hall : Aliases names latex ([] ++ program) := h
  have hbound : (State.initial digits scientific : State α).Binds [] :=
    fun _ hp ↦ absurd hp List.not_mem_nil
  obtain ⟨hstopped, hdone⟩ := hall.run_renamed hentries (h.initial_renamed digits scientific)
    (initial_nameOf digits scientific) hbound
  rw [← hrun, ← htranscript] at hdone
  rw [← hrun] at hstopped
  refine ⟨hstopped.symm, fun hnone ↦ ?_⟩
  obtain ⟨hstates, hnames, hresults⟩ := hdone hnone
  have houtput := run_output hentries hnone
  have houtput' := run_output hentries (hrun ▸ hstopped.mp hnone)
  rw [← hrun, ← htranscript, State.renameAll_eq] at houtput'
  exact ⟨hstates.bindings, houtput, houtput', hnames, hresults⟩

/-- An angle is declared, and then doubled and divided by the circle constant. -/
def angle : Program Float :=
  [(2, .declare "th" (.literal (.ofScalar 30))),
    (3, .print (.binary .mul (.ident "th") (.literal (.ofScalar 2))) none),
    (4, .declarePrint "x" (.binary .div (.ident "th") (.ident "pi")) none)]

theorem angle_aliases : Aliases ["th"] (fun _ ↦ "\\theta") angle where
  declared := by
    intro done n statement rest e name hangle he hname hocc
    obtain rfl := List.mem_singleton.mp hname
    cases done with
    | nil =>
      obtain ⟨⟨rfl, rfl⟩, -⟩ := List.cons.inj hangle |>.imp_left Prod.mk.inj
      cases he
      cases hocc
    | cons p done =>
      obtain ⟨rfl, -⟩ := List.cons.inj hangle
      exact ⟨_, List.mem_cons_self, _, none, rfl⟩
  own := by decide
  injective := by simp
  latex_own := by simp [reserved]
  fresh := by
    rintro name - ⟨p, hp, e, he, h⟩
    simp only [angle, List.mem_cons, List.not_mem_nil, or_false] at hp
    rcases hp with rfl | rfl | rfl <;> cases he <;>
      simp [Expr.occurs_apply, Expr.occurs_ident, Expr.occurs_literal, Expr.binary] at h

def angleAlias : Program Float :=
  [(1, .rename "th" "\\theta")]

/-- `alias th \theta` before `th = 30`, `th * 2 = ?` and `x = th / pi = ?`. -/
theorem aliases_only_rename_angle :
    (run (State.initial 3 false) (angleAlias ++ angle)).stopped = none ∧
    (run (State.initial 3 false) (angleAlias ++ angle)).state.scope.bindings =
      (run (State.initial 3 false) angle).state.scope.bindings.map
        (fun b ↦ (aliasOf ["th"] (fun _ ↦ "\\theta") b.1, b.2)) ∧
    (run (State.initial 3 false) angle).state.scope.bindings.map Prod.fst =
      ["\\pi", "e", "th", "x"] ∧
    (transcript (State.initial 3 false) (angleAlias ++ angle)).map Line.result =
      [none, some "60.000", some "9.549"] := by
  have hentries : ∀ p ∈ angle, ∃ e, p.2.asEntry = some e := by
    simp [angle, Statement.asEntry]
  have halone : (run (State.initial 3 false) angle).stopped = none := by decide +kernel
  have hnames : (run (State.initial 3 false) angle).state.scope.bindings.map Prod.fst =
      ["\\pi", "e", "th", "x"] := by decide +kernel
  have hresults : (transcript (State.initial 3 false) angle).map Line.result =
      [none, some "60.000", some "9.549"] := by decide +kernel
  have haliases : angleAlias.map Prod.snd =
      ["th"].map fun name ↦ .rename name "\\theta" := rfl
  obtain ⟨hstopped, hdone⟩ := aliases_only_rename 3 false hentries angle_aliases haliases
  obtain ⟨hbindings, -, -, -, hsame⟩ := hdone halone
  exact ⟨hstopped.mpr halone, hbindings, hnames, hsame.trans hresults⟩

end Run
end Document
end Mensura
