import Mensura.Error

/-!
# Outcomes of calculations

Every calculation is a chain of steps in `Except`.  The lemmas here take such a chain apart: a
chain succeeds exactly if all of its steps do, and what it answers is what the last one answers.
-/

set_option autoImplicit false

namespace Mensura

variable {ε α β : Type}

@[simp] theorem ok_bind (a : α) (f : α → Except ε β) : (Except.ok a >>= f) = f a := rfl

@[simp] theorem error_bind (e : ε) (f : α → Except ε β) : (Except.error e >>= f) = .error e := rfl

@[simp] theorem pure_eq_ok (a : α) : (pure a : Except ε α) = .ok a := rfl

@[simp] theorem throw_eq_error (e : ε) : (throw e : Except ε α) = .error e := rfl

/-- A step followed by others succeeds if the step does and the others do on what it answers. -/
theorem bind_eq_ok {x : Except ε α} {f : α → Except ε β} {b : β} :
    (x >>= f) = .ok b ↔ ∃ a, x = .ok a ∧ f a = .ok b := by
  cases x with
  | ok a => simp
  | error e => simp

/-- A step followed by others fails as the step does, or as the others do behind it. -/
theorem bind_eq_error {x : Except ε α} {f : α → Except ε β} {e : ε} :
    (x >>= f) = .error e ↔ x = .error e ∨ ∃ a, x = .ok a ∧ f a = .error e := by
  cases x with
  | ok a => simp
  | error e => simp

theorem exists_eq_ok {x : Except ε α} (h : x.isOk = true) : ∃ a, x = .ok a := by
  cases x with
  | ok a => exact ⟨a, rfl⟩
  | error e => simp [Except.isOk, Except.toBool] at h

@[simp] theorem fail_ne_ok {e : CalcError} {a : α} : (fail e : Result α) ≠ .ok a := nofun

/-- A step that may only fault, among others. -/
@[simp] theorem liftM_ok (a : α) : (liftM (Except.ok a : Except Fault α) : Result α) = .ok a := rfl

@[simp] theorem liftM_error (f : Fault) :
    (liftM (Except.error f : Except Fault α) : Result α) = .error (.fault f) := rfl

theorem liftM_eq_ok {x : Except Fault α} {a : α} :
    (liftM x : Result α) = .ok a ↔ x = .ok a := by
  cases x <;> simp

/-! ## Readers -/

section Readers

variable {τ γ : Type} {x : Except Fault α} {rest : List τ}

/-- What a reader answers if the tokens in front of a rest stand for something. -/
def leaving (x : Except Fault α) (rest : List τ) : Result (α × List τ) :=
  liftM x >>= fun a ↦ .ok (a, rest)

/-- Reading goes on behind these tokens. -/
theorem leaving_bind (k : α × List τ → Result γ) :
    (leaving x rest >>= k) = liftM x >>= fun a ↦ k (a, rest) := by
  cases x <;> rfl

/-- What the tokens stand for may be put together from parts. -/
theorem leaving_of_bind {f : α → Except Fault β} :
    leaving (x >>= f) rest = liftM x >>= fun a ↦ leaving (f a) rest := by
  cases x <;> rfl

end Readers

end Mensura
