import Mensura.Proofs.Document.Execution
import Mensura.Proofs.Faults

/-!
# Faults of statements

What can stop a document without a line.  Reading a line only stops for an integer that is no
integer or too long, and for the faults of units; carrying out a statement stops for the faults of
expressions, and for a number of decimal places that is too large.
-/

set_option autoImplicit false

namespace Mensura

/-- The faults that reading a line may stop with. -/
inductive ReadingFault : Fault → Prop
  /-- Superscripts and the like are digits, but no integer is made of them. -/
  | badInteger {text : String} : ReadingFault (.badInteger text)
  | integerTooLong {digits : Nat} : ReadingFault (.integerTooLong digits)
  | multiplier : ReadingFault .multiplier
  | integerTooLarge : ReadingFault .integerTooLarge

/-- The faults that carrying out a statement may stop with. -/
inductive ExecutionFault : Fault → Prop
  | multiplier : ExecutionFault .multiplier
  | integerTooLarge : ExecutionFault .integerTooLarge
  | loneArgument : ExecutionFault .loneArgument
  | outOfRange : ExecutionFault .outOfRange
  | precisionTooBig : ExecutionFault .precisionTooBig
  | precisionTooLong : ExecutionFault .precisionTooLong

theorem ReadingFault.coversUnits : CoversUnits ReadingFault :=
  ⟨.multiplier, .integerTooLarge⟩

theorem ExecutionFault.coversUnits : CoversUnits ExecutionFault :=
  ⟨.multiplier, .integerTooLarge⟩

/-! ## Integers and units -/

theorem integer_faults (s : String) : FaultsIn ReadingFault (liftM (Text.integer s)) := by
  refine .lift fun f h ↦ ?_
  rw [Text.integer] at h
  dsimp only at h
  split at h
  · split at h
    · cases h
      exact .integerTooLong
    · split at h
      · split at h
        · cases h
        · cases h
          exact .badInteger
      · cases h
        exact .badInteger
  · cases h
    exact .badInteger

variable {α : Type} [Scalar α]

theorem Registry.resolve_faults {P : Fault → Prop} (r : Registry α) (token : String) :
    FaultsIn P (r.resolve token) := by
  rw [resolve]
  refine .ite .fail ?_
  split
  · exact .ok
  · refine .ite .fail ?_
    split
    · exact .ok
    · exact .fail

theorem UnitExpr.eval_faults {P : Fault → Prop} (hP : CoversUnits P)
    {resolve : String → Result (PhysUnit α)} (hr : ∀ name, FaultsIn P (resolve name)) :
    ∀ e : UnitExpr, FaultsIn P (e.eval resolve)
  | name text => by
    rw [eval]
    exact hr text
  | pow base n => by
    rw [eval]
    exact .bind (eval_faults hP hr base) fun _ ↦ PhysUnit.pow_faults hP _ _
  | mul a b => by
    rw [eval]
    exact .bind (eval_faults hP hr a) fun _ ↦ .bind (eval_faults hP hr b) fun _ ↦
      PhysUnit.mul_faults hP _ _
  | div a b => by
    rw [eval]
    exact .bind (eval_faults hP hr a) fun _ ↦ .bind (eval_faults hP hr b) fun _ ↦
      PhysUnit.div_faults hP _ _

theorem Registry.eval_faults (r : Registry α) (e : UnitExpr) : FaultsIn ReadingFault (r.eval e) :=
  UnitExpr.eval_faults ReadingFault.coversUnits (fun name ↦ resolve_faults r name) e

/-! ## Unit expressions of hints -/

namespace UnitExpr

theorem scan_faults {P : Fault → Prop} (text : String) (taken blanks position : Nat)
    (cs : List Char) : FaultsIn P (scan text taken blanks position cs) := by
  induction cs generalizing taken blanks position with
  | nil =>
    rw [scan]
    exact .ok
  | cons c rest ih =>
    cases taken with
    | succ taken =>
      rw [scan]
      exact ih _ _ _
    | zero =>
      rw [scan]
      refine .ite (ih _ _ _) ?_
      split
      · exact .bind (ih _ _ _) fun _ ↦ .pure
      · exact .fail

variable {P : Fault → Prop} {β : Type}

theorem expected_faults (s : Source) (what : String) (ts : List Token) :
    FaultsIn P (s.expected what ts : Result β) := by
  cases ts <;> exact .fail

theorem integerToken_faults (s : Source) (ts : List Token) :
    FaultsIn ReadingFault (integer s ts) := by
  unfold integer
  split
  · exact .bind (integer_faults _) fun _ ↦ .pure
  · exact expected_faults _ _ _

theorem exponent_faults (s : Source) (ts : List Token) : FaultsIn ReadingFault (exponent s ts) :=
  .ite (.bind (integerToken_faults _ _) fun _ ↦
    .bind (.ite .ok (expected_faults _ _ _)) fun _ ↦ .pure) (integerToken_faults _ _)

theorem powered_faults (s : Source) (base : UnitExpr) (ts : List Token) :
    FaultsIn ReadingFault (powered s base ts) :=
  .ite (.bind (exponent_faults _ _) fun _ ↦ .pure) .pure

mutual

theorem term_faults (s : Source) :
    ∀ (fuel : Nat) (ts : List Token), FaultsIn ReadingFault (term s fuel ts)
  | fuel, ts => by
    unfold term
    split
    · exact powered_faults _ _ _
    · exact expected_faults _ _ _
    · refine .ite (.bind (expression_faults s _ _) fun _ ↦ .bind ?_ fun _ ↦ powered_faults _ _ _)
        (expected_faults _ _ _)
      exact .ite .ok (expected_faults _ _ _)

theorem expression_faults (s : Source) :
    ∀ (fuel : Nat) (ts : List Token), FaultsIn ReadingFault (expression s fuel ts)
  | 0, ts => by
    rw [expression]
    exact expected_faults _ _ _
  | fuel + 1, ts => by
    rw [expression]
    exact .bind (term_faults s fuel ts) fun _ ↦ moreTerms_faults s fuel _ _

theorem moreTerms_faults (s : Source) :
    ∀ (fuel : Nat) (left : UnitExpr) (ts : List Token),
      FaultsIn ReadingFault (moreTerms s fuel left ts)
  | 0, left, ts => by
    rw [moreTerms]
    exact .ok
  | fuel + 1, left, ts => by
    rw [moreTerms]
    exact .ite (.bind (term_faults s fuel _) fun _ ↦ moreTerms_faults s fuel _ _)
      (.ite (.bind (term_faults s fuel _) fun _ ↦ moreTerms_faults s fuel _ _)
        (.ite (.bind (term_faults s fuel _) fun _ ↦ moreTerms_faults s fuel _ _) .pure))

end

theorem ofText_faults (text : String) : FaultsIn ReadingFault (ofText text) := by
  refine .ite .fail (.bind (scan_faults _ _ _ _ _) fun ts ↦ ?_)
  refine .bind (expression_faults _ _ _) fun ⟨e, rest⟩ ↦ ?_
  cases rest with
  | nil => exact .pure
  | cons _ _ => exact .fail

end UnitExpr

/-! ## Expressions -/

namespace Expr

theorem literalOf_faults {P : Fault → Prop} (t : Token) :
    FaultsIn P (literalOf t : Result (Expr α)) := by
  rw [literalOf]
  dsimp only
  split
  · exact .ok
  · exact .fail

theorem expect_faults {P : Fault → Prop} (symbol : String) (ts : List Token) :
    FaultsIn P (expect symbol ts) :=
  .ite .ok .fail

theorem signedInteger_faults (ts : List Token) : FaultsIn ReadingFault (signedInteger ts) :=
  .ite (.bind (integer_faults _) fun _ ↦ .pure) .fail

theorem unitExponent_faults (ts : List Token) : FaultsIn ReadingFault (unitExponent ts) :=
  .ite (.bind (signedInteger_faults _) fun _ ↦ .bind (expect_faults _ _) fun _ ↦ .pure)
    (signedInteger_faults _)

theorem unitTerm_faults (ts : List Token) : FaultsIn ReadingFault (unitTerm ts) :=
  .ite (.bind (unitExponent_faults _) fun _ ↦ .pure) .pure

theorem moreUnits_faults (fuel : Nat) (left : UnitExpr) (ts : List Token) :
    FaultsIn ReadingFault (moreUnits fuel left ts) := by
  induction fuel generalizing left ts with
  | zero =>
    rw [moreUnits]
    exact .ok
  | succ fuel ih =>
    rw [moreUnits]
    exact .ite (.bind (unitTerm_faults _) fun _ ↦ ih _ _)
      (.ite (.bind (unitTerm_faults _) fun _ ↦ ih _ _)
        (.ite (.bind (unitTerm_faults _) fun _ ↦ ih _ _) .pure))

theorem unitExpr_faults (ts : List Token) : FaultsIn ReadingFault (unitExpr ts) :=
  .bind (unitTerm_faults _) fun _ ↦ moreUnits_faults _ _ _

variable (r : Registry α)

mutual

theorem expression_faults :
    ∀ (fuel power : Nat) (ts : List Token), FaultsIn ReadingFault (expression r fuel power ts)
  | 0, power, ts => by
    rw [expression]
    exact .fail
  | fuel + 1, power, ts => by
    rw [expression]
    exact .bind (operand_faults fuel ts) fun _ ↦ climb_faults fuel _ _ _

theorem operand_faults :
    ∀ (fuel : Nat) (ts : List Token), FaultsIn ReadingFault (operand r fuel ts)
  | 0, ts => by
    rw [operand]
    exact .fail
  | fuel + 1, ts => by
    rw [operand]
    refine .ite (.bind (literalOf_faults _) fun _ ↦ .pure) (.ite (.ite (.ite .pure ?_) .pure) ?_)
    · exact .bind (arguments_faults fuel _) fun _ ↦ .bind (expect_faults _ _) fun _ ↦ .pure
    · refine .ite (.bind (expression_faults fuel _ _) fun _ ↦ .bind (expect_faults _ _) fun _ ↦
        .pure) (.ite (.bind (expression_faults fuel _ _) fun _ ↦ .pure) ?_)
      exact .ite (expression_faults fuel _ _) .fail

theorem climb_faults :
    ∀ (fuel power : Nat) (left : Expr α) (ts : List Token),
      FaultsIn ReadingFault (climb r fuel power left ts)
  | 0, power, left, ts => by
    rw [climb]
    exact .ok
  | fuel + 1, power, left, ts => by
    rw [climb]
    refine .ite (.ite .pure ?_) ?_
    · exact .bind (unitExpr_faults _) fun _ ↦ .bind (Registry.eval_faults r _) fun _ ↦
        climb_faults fuel _ _ _
    · split
      · exact .pure
      · exact .ite .pure (.bind (expression_faults fuel _ _) fun _ ↦ climb_faults fuel _ _ _)

theorem arguments_faults :
    ∀ (fuel : Nat) (ts : List Token), FaultsIn ReadingFault (arguments r fuel ts)
  | 0, ts => by
    rw [arguments]
    exact .ok
  | fuel + 1, ts => by
    rw [arguments]
    exact .bind (expression_faults fuel _ _) fun _ ↦
      .ite (.bind (arguments_faults fuel _) fun _ ↦ .pure) .pure

end

theorem ofText_faults (text : String) : FaultsIn ReadingFault (ofText r text) := by
  rw [ofText]
  split
  · exact .bind (expression_faults r _ _ _) fun _ ↦ .ite .pure .fail
  · exact .fail

end Expr

/-! ## Statements -/

namespace Statement

theorem hintOf_faults (cs : List Char) :
    FaultsIn ReadingFault (hintOf cs : Result (Option (UnitHint α))) := by
  refine .ite .pure (.bind (.bind (UnitExpr.ofText_faults _) fun _ ↦ ?_) fun _ ↦ .pure)
  exact .bind (Registry.eval_faults _ _) fun _ ↦ .pure

theorem exprOf_faults (cs : List Char) : FaultsIn ReadingFault (exprOf cs : Result (Expr α)) :=
  Expr.ofText_faults _ _

theorem formulasOf_faults {P : Fault → Prop} (parts : List (List Char)) :
    FaultsIn P (formulasOf parts) := by
  induction parts with
  | nil => exact .ok
  | cons part rest ih =>
    rw [formulasOf]
    split
    · exact .bind ih fun _ ↦ .pure
    · exact .fail

theorem tableOf_faults {P : Fault → Prop} (cs : List Char) :
    FaultsIn P (tableOf cs : Result (Statement α)) := by
  rw [tableOf]
  split
  · exact .fail
  · exact .bind (formulasOf_faults _) fun _ ↦ .ite .fail .pure

theorem valueOf_faults (line : String) (cs : List Char) :
    FaultsIn ReadingFault (valueOf line cs : Result (Statement α)) := by
  rw [valueOf]
  split
  · exact .bind (exprOf_faults _) fun _ ↦ .bind (hintOf_faults _) fun _ ↦ .pure
  split
  · exact .bind (exprOf_faults _) fun _ ↦ .bind (hintOf_faults _) fun _ ↦ .pure
  split
  · exact .bind (exprOf_faults _) fun _ ↦ .pure
  · exact .fail

/-- **Reading a line only stops for integers and units.** -/
theorem ofLine_faults (line : String) :
    FaultsIn ReadingFault (ofLine line : Result (Statement α)) := by
  refine .ite .ok (.ite .ok ?_)
  split
  · exact .bind (.ite (.bind (integer_faults _) fun _ ↦ .pure) .fail) fun _ ↦ .pure
  split
  · exact .ok
  · exact .ite (tableOf_faults _) (valueOf_faults _ _)

end Statement

/-! ## Display -/

namespace Typeset

theorem fixed_faults {digits : Int} (hdigits : 0 ≤ digits) (x : α) :
    FaultsIn ExecutionFault (liftM (fixed digits x)) := by
  refine .lift fun f h ↦ ?_
  rw [fixed] at h
  split at h
  · cases h
    exact .integerTooLarge
  split at h
  · omega
  split at h
  · cases h
    exact .precisionTooLong
  split at h
  · cases h
    exact .precisionTooBig
  · cases h

theorem prefixed_faults (first : String) (d : Dimension) :
    FaultsIn ExecutionFault (liftM (prefixed first d)) :=
  .lift_bind (checkWritable_faults ExecutionFault.coversUnits d) fun _ ↦ .ok

theorem withPrefix_faults {digits : Int} (hdigits : 0 ≤ digits) (q : Quantity α) (p : Rat) :
    FaultsIn ExecutionFault (withPrefix digits q p) := by
  have hshown : ∀ (first : String) (x : α), FaultsIn ExecutionFault (do
      return (← fixed digits x) ++ " \\ " ++ (← prefixed first q.dim)) := fun _ _ ↦
    .bind (fixed_faults hdigits _) fun _ ↦ .bind (prefixed_faults _ _) fun _ ↦ .pure
  rw [withPrefix]
  dsimp only
  split
  · exact .bind .ok fun _ ↦ hshown _ _
  · split
    · exact .bind .ok fun _ ↦ hshown _ _
    · exact .bind (.fault .outOfRange) fun _ ↦ hshown _ _

theorem hinted_faults {f : Format α} (hdigits : 0 ≤ f.digits) (hint : UnitHint α)
    (q : Quantity α) : FaultsIn ExecutionFault (hinted f hint q) := by
  refine .ite ?_ (.bind (checkWritable_faults ExecutionFault.coversUnits _) fun _ ↦ .fail)
  exact .ite (.bind (fixed_faults hdigits _) fun _ ↦ .pure)
    (.bind (fixed_faults hdigits _) fun _ ↦ .pure)

theorem scaled_faults {digits : Int} (hdigits : 0 ≤ digits) (q : Quantity α) :
    FaultsIn ExecutionFault (liftM (scaled digits q)) :=
  .lift_bind (fixed_faults hdigits _) fun _ ↦
    .lift_bind (integerText_faults ExecutionFault.coversUnits _) fun _ ↦ .ok

theorem inBaseUnits_faults {f : Format α} (hdigits : 0 ≤ f.digits) (q : Quantity α) :
    FaultsIn ExecutionFault (inBaseUnits f q) := by
  rw [inBaseUnits]
  split
  · exact .ite (scaled_faults hdigits q) (fixed_faults hdigits _)
  · exact .ite (.bind (scaled_faults hdigits q) fun _ ↦ .bind (prefixed_faults _ _) fun _ ↦ .pure)
      (withPrefix_faults hdigits q _)

theorem quantity_faults {f : Format α} (hdigits : 0 ≤ f.digits) (q : Quantity α) :
    FaultsIn ExecutionFault (quantity f q) := by
  rw [quantity]
  split
  · exact hinted_faults hdigits _ q
  · exact inBaseUnits_faults hdigits q

theorem operator_faults {P : Fault → Prop} (op : Operator α) (args : List String) :
    FaultsIn P (operator op args) := by
  unfold operator
  split <;> first | exact .ok | exact .fail

mutual

theorem expr_faults {f : Format α} (hdigits : 0 ≤ f.digits) :
    ∀ e : Expr α, FaultsIn ExecutionFault (expr f e)
  | .literal value => by
    rw [expr]
    exact .ite .ok (quantity_faults (f := { f with hint := none }) hdigits value)
  | .ident name => by
    rw [expr]
    exact .ok
  | .call function args => by
    rw [expr]
    exact .bind (exprs_faults hdigits args) fun _ ↦ .pure
  | .apply op operands => by
    rw [expr]
    exact .bind (exprs_faults hdigits operands) fun _ ↦ operator_faults op _

theorem exprs_faults {f : Format α} (hdigits : 0 ≤ f.digits) :
    ∀ es : List (Expr α), FaultsIn ExecutionFault (exprs f es)
  | [] => by
    rw [exprs]
    exact .ok
  | e :: rest => by
    rw [exprs]
    exact .bind (expr_faults hdigits e) fun _ ↦ .bind (exprs_faults hdigits rest) fun _ ↦ .pure

end

end Typeset

/-! ## Execution -/

namespace Document.State

variable (s : State α)

theorem eval_faults (e : Expr α) : FaultsIn ExecutionFault (e.eval s.scope) :=
  Expr.eval_faults ExecutionFault.coversUnits .loneArgument .outOfRange _ _

theorem digits_nonneg (hint : Option (UnitHint α)) : 0 ≤ (s.format hint).digits :=
  Int.natCast_nonneg s.digits

theorem evaluated_faults (value : Expr α) (hint : Option (UnitHint α)) :
    FaultsIn ExecutionFault (s.evaluated value hint) :=
  .bind (eval_faults s _) fun _ ↦ .bind (Typeset.expr_faults (s.digits_nonneg none) _) fun _ ↦
    .bind (Typeset.quantity_faults (s.digits_nonneg hint) _) fun _ ↦ .pure

/-- **A statement only stops for the faults of expressions and for its decimal places.** -/
theorem execute_faults (statement : Statement α) :
    FaultsIn ExecutionFault (s.execute statement) := by
  cases statement with
  | declare name value =>
    rw [execute_declare]
    exact .bind (Typeset.expr_faults (s.digits_nonneg none) _) fun _ ↦
      .bind (eval_faults s _) fun _ ↦ .pure
  | print value hint =>
    rw [execute_print]
    exact .bind (evaluated_faults s value hint) fun _ ↦ .pure
  | declarePrint name value hint =>
    rw [execute_declarePrint]
    exact .bind (evaluated_faults s value hint) fun _ ↦ .pure
  | rename | digits | scientific | gap | table | raw => exact .ok

end Document.State

end Mensura
