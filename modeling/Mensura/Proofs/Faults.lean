import Mensura.Expr.Eval
import Mensura.Proofs.Outcome

/-!
# Faults of units, quantities and expressions

Errors of the calculator are reported with a line, faults are not.  `FaultsIn P` says that a
calculation stops with no fault but those in `P`; it goes through chains of steps, so what can
stop a calculation follows from what can stop its steps.

* Operations on units stop if a multiplier gets out of range, or if an error has to show an
  exponent that is too long to be written.
* Evaluating an expression stops for no other reasons than these, an extremum of a lone argument,
  and a power of ten that is out of range.
-/

set_option autoImplicit false

namespace Mensura

/-- A calculation stops with no faults but some. -/
def FaultsIn {β : Type} (P : Fault → Prop) (r : Result β) : Prop :=
  ∀ f, r = .error (.fault f) → P f

namespace FaultsIn

variable {β γ : Type} {P : Fault → Prop}

theorem ok {b : β} : FaultsIn P (.ok b : Result β) := nofun

theorem pure {b : β} : FaultsIn P (Pure.pure b : Result β) := nofun

theorem fail {e : CalcError} : FaultsIn P (Mensura.fail e : Result β) := nofun

theorem fault {f : Fault} (h : P f) : FaultsIn P (.error (.fault f) : Result β) := by
  rintro _ ⟨⟩
  exact h

theorem bind {r : Result β} {f : β → Result γ} (hr : FaultsIn P r)
    (hf : ∀ b, FaultsIn P (f b)) : FaultsIn P (r >>= f) := by
  cases r with
  | ok b => exact hf b
  | error e =>
    rintro f ⟨⟩
    exact hr f rfl

theorem ite {c : Prop} [Decidable c] {r s : Result β} (hr : FaultsIn P r) (hs : FaultsIn P s) :
    FaultsIn P (if c then r else s) := by
  split <;> assumption

/-- A step that may only fault, among others. -/
theorem lift {x : Except Fault β} (h : ∀ f, x = .error f → P f) :
    FaultsIn P (liftM x : Result β) := by
  cases x with
  | ok b => exact ok
  | error f => exact fault (h f rfl)

/-- Such a step may itself be a chain. -/
theorem lift_bind {x : Except Fault β} {f : β → Except Fault γ}
    (hx : FaultsIn P (liftM x : Result β)) (hf : ∀ b, FaultsIn P (liftM (f b) : Result γ)) :
    FaultsIn P (liftM (x >>= f) : Result γ) := by
  cases x with
  | ok b => exact hf b
  | error e => exact lift fun f h ↦ hx f (by rw [Except.error.inj h]; rfl)

end FaultsIn

/-! ## Texts of dimensions and units -/

theorem integerText_fault {n : Int} {f : Fault} (h : Text.integerText n = .error f) :
    f = .integerTooLarge := by
  rw [Text.integerText] at h
  split at h
  · cases h
  · exact (Except.error.inj h).symm

theorem checkWritable_fault {d : Dimension} {f : Fault} (h : d.checkWritable = .error f) :
    f = .integerTooLarge := by
  rw [Dimension.checkWritable] at h
  split at h
  · cases h
  · exact (Except.error.inj h).symm

theorem dimensionText_fault {d : Dimension} {f : Fault} (h : d.text = .error f) :
    f = .integerTooLarge := by
  rcases bind_eq_error.mp h with h | ⟨_, _, h⟩
  · exact checkWritable_fault h
  · cases h

variable {α : Type} [Scalar α]

theorem PhysUnit.text_fault {u : PhysUnit α} {f : Fault} (h : u.text = .error f) :
    f = .integerTooLarge := by
  rcases bind_eq_error.mp h with h | ⟨_, _, h⟩
  · exact dimensionText_fault h
  · cases h

theorem Quantity.text_fault {q : Quantity α} {f : Fault} (h : q.text = .error f) :
    f = .integerTooLarge := by
  rcases bind_eq_error.mp h with h | ⟨_, _, h⟩
  · exact dimensionText_fault h
  · cases h

/-- Some faults among which are those of units: a multiplier out of range, and an exponent that is
too long for a message. -/
structure CoversUnits (P : Fault → Prop) : Prop where
  multiplier : P .multiplier
  integerTooLarge : P .integerTooLarge

section Operations

variable {P : Fault → Prop} (hP : CoversUnits P)

include hP

theorem integerText_faults (n : Int) : FaultsIn P (liftM (Text.integerText n)) :=
  .lift fun _ h ↦ integerText_fault h ▸ hP.integerTooLarge

theorem checkWritable_faults (d : Dimension) : FaultsIn P (liftM d.checkWritable) :=
  .lift fun _ h ↦ checkWritable_fault h ▸ hP.integerTooLarge

/-! ## Units -/

namespace PhysUnit

theorem text_faults (u : PhysUnit α) : FaultsIn P (liftM u.text) :=
  .lift fun _ h ↦ text_fault h ▸ hP.integerTooLarge

theorem ofParts_faults (dim : Dimension) (decExp : Int) (m : α) :
    FaultsIn P (ofParts dim decExp m) := by
  rw [ofParts]
  split
  · exact .ok
  · exact .fault hP.multiplier

theorem mul_faults (u v : PhysUnit α) : FaultsIn P (u.mul v) :=
  ofParts_faults hP _ _ _

theorem div_faults (u v : PhysUnit α) : FaultsIn P (u.div v) :=
  ofParts_faults hP _ _ _

theorem pow_faults (u : PhysUnit α) (n : Int) : FaultsIn P (u.pow n) := by
  rw [pow]
  refine .ite (.ite .pure (.bind (text_faults hP u) fun _ ↦ .fail)) ?_
  split
  · exact ofParts_faults hP _ _ _
  · exact .bind (text_faults hP u) fun _ ↦ .bind (integerText_faults hP n) fun _ ↦ .fail

end PhysUnit

/-! ## Quantities -/

namespace Quantity

theorem text_faults (q : Quantity α) : FaultsIn P (liftM q.text) :=
  .lift fun _ h ↦ text_fault h ▸ hP.integerTooLarge

theorem normalize_faults (q : Quantity α) : FaultsIn P q.normalize := by
  rw [normalize]
  exact .ite .ok (.ite .fail (.bind (PhysUnit.ofParts_faults hP _ _ _) fun _ ↦ .pure))

theorem withUnit_faults (q : Quantity α) (u : PhysUnit α) : FaultsIn P (q.withUnit u) :=
  .bind (PhysUnit.mul_faults hP _ _) fun _ ↦ normalize_faults hP _

theorem ofAligned_faults (dim : Dimension) (ref : PhysUnit α) (num : α) :
    FaultsIn P (ofAligned dim ref num) :=
  .bind (PhysUnit.ofParts_faults hP _ _ _) fun _ ↦ normalize_faults hP _

theorem mismatch_faults (error : Dimension → Dimension → CalcError) (a b : Quantity α) :
    FaultsIn P (mismatch error a b) :=
  .bind (checkWritable_faults hP _) fun _ ↦ .bind (checkWritable_faults hP _) fun _ ↦ .fail

theorem add_faults (a b : Quantity α) : FaultsIn P (a.add b) :=
  .ite (ofAligned_faults hP _ _ _) (mismatch_faults hP _ _ _)

theorem sub_faults (a b : Quantity α) : FaultsIn P (a.sub b) :=
  .ite (ofAligned_faults hP _ _ _) (mismatch_faults hP _ _ _)

theorem neg_faults (q : Quantity α) : FaultsIn P q.neg :=
  normalize_faults hP _

theorem mul_faults (a b : Quantity α) : FaultsIn P (a.mul b) :=
  .bind (PhysUnit.mul_faults hP _ _) fun _ ↦ normalize_faults hP _

theorem div_faults (a b : Quantity α) : FaultsIn P (a.div b) :=
  .ite .fail (.bind (PhysUnit.div_faults hP _ _) fun _ ↦ normalize_faults hP _)

theorem powInt_faults (q : Quantity α) (n : Int) : FaultsIn P (q.powInt n) := by
  refine .bind (PhysUnit.pow_faults hP _ _) fun unit ↦ .ite (.ite .fail .pure) ?_
  split
  · exact normalize_faults hP _
  · exact .bind (text_faults hP q) fun _ ↦ .bind (integerText_faults hP n) fun _ ↦ .fail

/-- A fractional power may also lead to a power of ten that is out of range. -/
theorem powFrac_faults (hrange : P .outOfRange) (q : Quantity α) (p : α) :
    FaultsIn P (q.powFrac p) := by
  rw [powFrac]
  split
  · exact .fail
  refine .ite (.bind (text_faults hP q) fun _ ↦ .fail) (.ite (.ite .fail .pure) ?_)
  split
  · exact normalize_faults hP _
  · exact .bind (text_faults hP q) fun _ ↦ .fail
  · exact .fault hrange

theorem pow_faults (hrange : P .outOfRange) (q p : Quantity α) : FaultsIn P (q.pow p) := by
  rw [pow]
  refine .ite (.bind (text_faults hP p) fun _ ↦ .fail) (.ite .fail ?_)
  split
  · exact powInt_faults hP q _
  · exact .ite (powFrac_faults hP hrange q _) (.bind (text_faults hP p) fun _ ↦ .fail)

end Quantity

/-! ## Functions -/

namespace NamedFunction

theorem resultDimension_faults (f : NamedFunction) (args : List (Quantity α)) :
    FaultsIn P (f.resultDimension args) := by
  unfold resultDimension
  split
  · split
    · exact .bind (Quantity.text_faults hP _) fun _ ↦ .fail
    · exact .pure
  · exact .pure
  · split
    · exact .bind (Quantity.text_faults hP _) fun _ ↦
        .bind (Quantity.text_faults hP _) fun _ ↦ .fail
    · exact .pure

theorem callByName_faults (hlone : P .loneArgument) (name : String) (args : List (Quantity α)) :
    FaultsIn P (callByName name args) := by
  rw [callByName]
  split
  · next f _ =>
    refine .ite .fail (.bind (resultDimension_faults hP f args) fun dim ↦ ?_)
    split
    · next e _ =>
      cases e with
      | loneArgument => exact .fault hlone
      | _ => exact .fail
    · exact .ite (Quantity.normalize_faults hP _) .fail
  · exact .fail

end NamedFunction

/-! ## Expressions -/

theorem Operator.applyTo_faults (hrange : P .outOfRange) (op : Operator α)
    (args : List (Quantity α)) : FaultsIn P (op.applyTo args) := by
  unfold applyTo
  split
  · exact Quantity.withUnit_faults hP _ _
  · exact Quantity.neg_faults hP _
  · exact Quantity.add_faults hP _ _
  · exact Quantity.sub_faults hP _ _
  · exact Quantity.mul_faults hP _ _
  · exact Quantity.div_faults hP _ _
  · exact Quantity.pow_faults hP hrange _ _
  · exact .fail

end Operations

namespace Expr

theorem resolve_faults {P : Fault → Prop} (scope : Scope α) (name : String) :
    FaultsIn P (resolve scope name) := by
  rw [resolve]
  split
  · exact .ok
  · split
    · exact .ok
    · exact .fail

mutual

theorem eval_faults {P : Fault → Prop} (hP : CoversUnits P) (hlone : P .loneArgument)
    (hrange : P .outOfRange) (scope : Scope α) : ∀ e : Expr α, FaultsIn P (eval scope e)
  | literal value => by
    rw [eval]
    exact Quantity.normalize_faults hP _
  | ident name => by
    rw [eval]
    exact resolve_faults scope name
  | call function args => by
    rw [eval]
    exact .bind (evalAll_faults hP hlone hrange scope args) fun _ ↦
      NamedFunction.callByName_faults hP hlone _ _
  | apply op operands => by
    rw [eval]
    exact .ite (.bind (evalAll_faults hP hlone hrange scope operands) fun _ ↦
      Operator.applyTo_faults hP hrange _ _) .fail

theorem evalAll_faults {P : Fault → Prop} (hP : CoversUnits P) (hlone : P .loneArgument)
    (hrange : P .outOfRange) (scope : Scope α) :
    ∀ es : List (Expr α), FaultsIn P (evalAll scope es)
  | [] => by
    rw [evalAll]
    exact .ok
  | e :: rest => by
    rw [evalAll]
    exact .bind (eval_faults hP hlone hrange scope e) fun _ ↦
      .bind (evalAll_faults hP hlone hrange scope rest) fun _ ↦ .pure

end

end Expr

end Mensura
