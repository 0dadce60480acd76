import Mensura.Expr.Eval
import Mensura.Proofs.Expr.Binding
import Mensura.Proofs.Outcome

/-!
# What a value depends on

The value of an expression depends on the scope only through the identifiers that occur in it, and
on these only through what they stand for.  `eval_rename` says both at once: renaming the
identifiers leaves the value alone if every identifier stands, under its new name and in another
scope, for what it stood for before.  Nothing renamed at all, this is `eval_congr`.

Conversely `exists_resolve_of_eval` says that no identifier can be spared: where an expression has a
value, all of its identifiers stand for something.
-/

set_option autoImplicit false

namespace Mensura

/-! ## Tables of names -/

section Lookup

variable {β : Type}

theorem lookup_cons (k : String) (v : β) (bs : List (String × β)) (other : String) :
    ((k, v) :: bs).lookup other = if other = k then some v else bs.lookup other := by
  by_cases h : other = k
  · simp [h]
  · simp [List.lookup_cons, beq_false_of_ne h, h]

/-- An entry that is put to the end in place of an earlier one. -/
theorem lookup_put (bs : List (String × β)) (k : String) (v : β) (other : String) :
    (bs.filter (·.1 ≠ k) ++ [(k, v)]).lookup other =
      if other = k then some v else bs.lookup other := by
  induction bs with
  | nil => rw [List.filter_nil, List.nil_append, lookup_cons]
  | cons b bs ih =>
    obtain ⟨first, w⟩ := b
    rw [List.filter_cons, lookup_cons]
    by_cases hfirst : first = k
    · rw [if_neg (by simp [hfirst]), ih, hfirst]
      split <;> rfl
    · rw [if_pos (by simp [hfirst]), List.cons_append, lookup_cons, ih]
      by_cases hother : other = first
      · simp [hother, hfirst]
      · simp [hother]

end Lookup

variable {α : Type} [Scalar α]

theorem Scope.find?_bind (s : Scope α) (name : String) (q : Quantity α) (other : String) :
    (s.bind name q).find? other = if other = name then some q else s.find? other :=
  lookup_put s.bindings name q other

namespace Expr

variable {s t : Scope α}

/-! ## Renaming -/

@[simp] theorem length_renameAll (f : String → String) (es : List (Expr α)) :
    (renameAll f es).length = es.length := by
  induction es with
  | nil => rfl
  | cons e es ih => rw [renameAll, List.length_cons, ih, List.length_cons]

theorem renameAll_eq_map (f : String → String) (es : List (Expr α)) :
    renameAll f es = es.map (rename f) := by
  induction es with
  | nil => rfl
  | cons e es ih => rw [renameAll, ih, List.map_cons]

/-- Renaming twice. -/
theorem rename_rename (f g : String → String) (e : Expr α) :
    (e.rename f).rename g = e.rename (g ∘ f) := by
  induction e using inductionOn with
  | literal value => rfl
  | ident name => rfl
  | call function args ih =>
    simp only [rename, renameAll_eq_map, List.map_map]
    exact congrArg _ (List.map_congr_left ih)
  | apply op operands ih =>
    simp only [rename, renameAll_eq_map, List.map_map]
    exact congrArg _ (List.map_congr_left ih)

/-- Renaming nothing. -/
theorem rename_id (e : Expr α) : e.rename id = e := by
  induction e using inductionOn with
  | literal value => rfl
  | ident name => rfl
  | call function args ih => rw [rename, renameAll_eq_map, List.map_congr_left ih, List.map_id']
  | apply op operands ih => rw [rename, renameAll_eq_map, List.map_congr_left ih, List.map_id']

/-- The identifiers of a renamed expression are those of the expression, renamed. -/
theorem exists_of_occurs_rename {f : String → String} {e : Expr α} {name : String}
    (h : Occurs (ident name) (e.rename f)) : ∃ x, Occurs (ident x) e ∧ f x = name := by
  induction e using inductionOn with
  | literal value => cases h
  | ident x =>
    cases h
    exact ⟨x, .here, rfl⟩
  | call function args ih =>
    simp only [rename, renameAll_eq_map, occurs_call, reduceCtorEq, false_or, List.mem_map] at h
    obtain ⟨_, ⟨a, ha, rfl⟩, h⟩ := h
    obtain ⟨x, hx, hname⟩ := ih a ha h
    exact ⟨x, .argument ha hx, hname⟩
  | apply op operands ih =>
    simp only [rename, renameAll_eq_map, occurs_apply, reduceCtorEq, false_or, List.mem_map] at h
    obtain ⟨_, ⟨a, ha, rfl⟩, h⟩ := h
    obtain ⟨x, hx, hname⟩ := ih a ha h
    exact ⟨x, .operand ha hx, hname⟩

/-! ## Evaluation -/

theorem evalAll_rename {f : String → String} {es : List (Expr α)}
    (h : ∀ e ∈ es, eval t (e.rename f) = eval s e) : evalAll t (renameAll f es) = evalAll s es := by
  induction es with
  | nil => rfl
  | cons e es ih =>
    rw [renameAll, evalAll, evalAll, h e List.mem_cons_self,
      ih fun a ha ↦ h a (List.mem_cons_of_mem _ ha)]

/-- **Renaming leaves the value alone** if every identifier that occurs stands, under its new name,
for what it stood for under the old one. -/
theorem eval_rename {f : String → String} {e : Expr α}
    (h : ∀ name, Occurs (ident name) e → resolve t (f name) = resolve s name) :
    eval t (e.rename f) = eval s e := by
  induction e using inductionOn with
  | literal value => rw [rename, eval, eval]
  | ident name =>
    rw [rename, eval, eval]
    exact h name .here
  | call function args ih =>
    rw [rename, eval, eval,
      evalAll_rename fun a ha ↦ ih a ha fun name hname ↦ h name (.argument ha hname)]
  | apply op operands ih =>
    rw [rename, eval, eval, length_renameAll,
      evalAll_rename fun a ha ↦ ih a ha fun name hname ↦ h name (.operand ha hname)]

theorem resolve_congr {name : String} (h : s.find? name = t.find? name) :
    resolve s name = resolve t name := by
  rw [resolve, resolve, h]

/-- Scopes in which the identifiers of an expression have the same values give it the same value. -/
theorem eval_congr {e : Expr α} (h : ∀ name, Occurs (ident name) e → s.find? name = t.find? name) :
    eval s e = eval t e := by
  calc eval s e = eval s (e.rename id) := by rw [rename_id]
    _ = eval t e := eval_rename fun name hname ↦ resolve_congr (h name hname)

theorem exists_eval_of_evalAll {es : List (Expr α)} {vs : List (Quantity α)}
    (h : evalAll s es = .ok vs) : ∀ e ∈ es, ∃ v, eval s e = .ok v := by
  induction es generalizing vs with
  | nil => simp
  | cons e es ih =>
    rw [evalAll] at h
    obtain ⟨v, hv, h⟩ := bind_eq_ok.mp h
    obtain ⟨ws, hws, -⟩ := bind_eq_ok.mp h
    exact List.forall_mem_cons.mpr ⟨⟨v, hv⟩, ih hws⟩

/-- No identifier can be spared: where an expression has a value, all of them stand for
something. -/
theorem exists_resolve_of_eval {e : Expr α} {q : Quantity α} (h : eval s e = .ok q) {name : String}
    (hname : Occurs (ident name) e) : ∃ p, resolve s name = .ok p := by
  induction e using inductionOn generalizing q with
  | literal value => cases hname
  | ident x =>
    cases hname
    rw [eval] at h
    exact ⟨q, h⟩
  | call function args ih =>
    rw [eval] at h
    obtain ⟨vs, hvs, -⟩ := bind_eq_ok.mp h
    cases hname with
    | argument ha hname =>
      obtain ⟨v, hv⟩ := exists_eval_of_evalAll hvs _ ha
      exact ih _ ha hv hname
  | apply op operands ih =>
    rw [eval] at h
    split at h
    · obtain ⟨vs, hvs, -⟩ := bind_eq_ok.mp h
      cases hname with
      | operand ha hname =>
        obtain ⟨v, hv⟩ := exists_eval_of_evalAll hvs _ ha
        exact ih _ ha hv hname
    · cases h

end Expr
end Mensura
