import Mensura.Expr.Eval
import Mensura.Proofs.Quantity.Amount

/-!
# Evaluation is plain dimensional arithmetic

`reference` evaluates expressions to amounts.  It knows nothing of mantissas, decimal exponents
and multipliers, and so it says what an expression should come to.

`eval_refines` is the result: over exact scalars, `eval` succeeds on the expressions of this
arithmetic exactly if `reference` does, and the quantity it answers stands for the amount that
`reference` answers.  The proof is an induction over the tree, with the agreement of each
operation as its step.
-/

set_option autoImplicit false

namespace Mensura
namespace Expr

/-- The amount of a name: what it is bound to, or else one of the unit that it names. -/
def referenceName (scope : Scope Rat) (name : String) : Except Refusal Amount :=
  match scope.find? name with
  | some q => .ok q.amount
  | none =>
    match (Registry.standard : Registry Rat).resolve name with
    | .ok u => .ok u.amount
    | .error _ => .error .undefinedName

/-- A power of amounts, for exponents that are plain integers. -/
def referencePower (x p : Amount) : Except Refusal Amount :=
  if p.dim = 1 ∧ p.value.den = 1 then x.power p.value.num else .error .otherExpression

/-- The amount of an expression. -/
def reference (scope : Scope Rat) : Expr Rat → Except Refusal Amount
  | literal q => .ok q.amount
  | ident name => referenceName scope name
  | apply (.attach u _) [e] => do
    let x ← reference scope e
    return x.mul u.amount
  | apply .neg [e] => do
    let x ← reference scope e
    return x.neg
  | apply .add [a, b] => do
    let x ← reference scope a
    let y ← reference scope b
    x.add y
  | apply .sub [a, b] => do
    let x ← reference scope a
    let y ← reference scope b
    x.sub y
  | apply .mul [a, b] => do
    let x ← reference scope a
    let y ← reference scope b
    return x.mul y
  | apply .div [a, b] => do
    let x ← reference scope a
    let y ← reference scope b
    x.div y
  | apply .pow [a, b] => do
    let x ← reference scope a
    let y ← reference scope b
    referencePower x y
  | _ => .error .otherExpression

/-- The expressions of plain dimensional arithmetic: made of literals, names, the four operations,
negation, attached units, and powers whose exponents, where they have a value, are plain
integers. -/
inductive Plain (scope : Scope Rat) : Expr Rat → Prop
  | literal (q : Quantity Rat) : Plain scope (literal q)
  | ident (name : String) : Plain scope (ident name)
  | attach {u : PhysUnit Rat} {label : String} {e : Expr Rat} :
    Plain scope e → Plain scope (unary (.attach u label) e)
  | neg {e : Expr Rat} : Plain scope e → Plain scope (unary .neg e)
  | add {a b : Expr Rat} : Plain scope a → Plain scope b → Plain scope (binary .add a b)
  | sub {a b : Expr Rat} : Plain scope a → Plain scope b → Plain scope (binary .sub a b)
  | mul {a b : Expr Rat} : Plain scope a → Plain scope b → Plain scope (binary .mul a b)
  | div {a b : Expr Rat} : Plain scope a → Plain scope b → Plain scope (binary .div a b)
  | pow {a b : Expr Rat} : Plain scope a → Plain scope b →
    (∀ p, reference scope b = .ok p → p.dim = 1 ∧ p.value.den = 1) →
    Plain scope (binary .pow a b)

/-! ## One step of the evaluator -/

variable {α : Type} [Scalar α]

theorem eval_unary {scope : Scope α} {op : Operator α} {e : Expr α} (h : op.arity = 1) :
    eval scope (unary op e) = eval scope e >>= fun v ↦ op.applyTo [v] := by
  cases he : eval scope e <;> simp [unary, eval, evalAll, h, he]

theorem eval_binary {scope : Scope α} {op : Operator α} {a b : Expr α} (h : op.arity = 2) :
    eval scope (binary op a b) =
      eval scope a >>= fun v ↦ eval scope b >>= fun w ↦ op.applyTo [v, w] := by
  cases ha : eval scope a <;> cases hb : eval scope b <;>
    simp [binary, eval, evalAll, h, ha, hb]

theorem resolve_agrees (scope : Scope Rat) (name : String) :
    Agrees (resolve scope name) (referenceName scope name) := by
  rw [resolve, referenceName]
  cases scope.find? name with
  | some q => exact .ok
  | none =>
    cases (Registry.standard : Registry Rat).resolve name with
    | ok u =>
      refine agrees_of_eq rfl ?_
      ext1
      · rfl
      · change ((1 : Nat) : Rat) * u.multiplier * 10 ^ u.decExp = u.multiplier * 10 ^ u.decExp
        rw [Nat.cast_one, one_mul]
    | error _ => exact .error .undefinedName

theorem pow_agrees_referencePower (q p : Quantity Rat)
    (h : p.amount.dim = 1 ∧ p.amount.value.den = 1) :
    Agrees (q.pow p) (referencePower q.amount p.amount) := by
  rw [referencePower, if_pos h]
  exact q.pow_agrees p h.1 (Rat.coe_int_num_of_den_eq_one h.2).symm

/-! ## Whole expressions -/

/-- Agreement goes through the two operands of an operator. -/
theorem agrees_binary {scope : Scope Rat} {op : Operator Rat} {a b : Expr Rat}
    {g : Amount → Amount → Except Refusal Amount} (harity : op.arity = 2)
    (ha : Agrees (eval scope a) (reference scope a)) (hb : Agrees (eval scope b) (reference scope b))
    (hop : ∀ q p, reference scope b = .ok p.amount →
      Agrees (op.applyTo [q, p]) (g q.amount p.amount)) :
    Agrees (eval scope (binary op a b))
      (reference scope a >>= fun x ↦ reference scope b >>= fun y ↦ g x y) := by
  rw [eval_binary harity]
  refine ha.bind fun q ↦ ?_
  generalize eval scope b = r at hb
  generalize reference scope b = x at hb hop
  cases hb with
  | ok => exact hop q _ rfl
  | error hshown => exact .error hshown

theorem eval_agrees {scope : Scope Rat} {e : Expr Rat} (h : Plain scope e) :
    Agrees (eval scope e) (reference scope e) := by
  induction h with
  | literal q =>
    obtain ⟨p, hp, hamount⟩ := q.normalize_amount
    rw [eval, reference]
    exact agrees_of_eq hp hamount
  | ident name =>
    rw [eval, reference]
    exact resolve_agrees scope name
  | @attach u _ _ _ ih =>
    rw [eval_unary rfl, unary, reference]
    refine ih.bind fun q ↦ ?_
    obtain ⟨p, hp, hamount⟩ := q.withUnit_amount u
    exact agrees_of_eq hp hamount
  | neg _ ih =>
    rw [eval_unary rfl, unary, reference]
    refine ih.bind fun q ↦ ?_
    obtain ⟨p, hp, hamount⟩ := q.neg_amount
    exact agrees_of_eq hp hamount
  | add _ _ iha ihb =>
    rw [binary, reference]
    exact agrees_binary rfl iha ihb fun q p _ ↦ q.add_agrees p
  | sub _ _ iha ihb =>
    rw [binary, reference]
    exact agrees_binary rfl iha ihb fun q p _ ↦ q.sub_agrees p
  | mul _ _ iha ihb =>
    rw [binary, reference]
    refine agrees_binary rfl iha ihb fun q p _ ↦ ?_
    obtain ⟨w, hw, hamount⟩ := q.mul_amount p
    exact agrees_of_eq hw hamount
  | div _ _ iha ihb =>
    rw [binary, reference]
    exact agrees_binary rfl iha ihb fun q p _ ↦ q.div_agrees p
  | pow _ _ hexponent iha ihb =>
    rw [binary, reference]
    exact agrees_binary rfl iha ihb fun q p hp ↦
      pow_agrees_referencePower q p (hexponent _ hp)

/-- **Evaluation refines plain dimensional arithmetic.**  Over exact scalars, an expression of this
arithmetic has a value exactly if its reference has one, the value is that of the reference, and
an error says why there is none. -/
theorem eval_refines (scope : Scope Rat) (e : Expr Rat) (h : Plain scope e) :
    ((∃ q, eval scope e = .ok q) ↔ ∃ a, reference scope e = .ok a) ∧
    (∀ q, eval scope e = .ok q → reference scope e =
      .ok ⟨q.dim, q.mantissa * q.unit.multiplier * 10 ^ q.unit.decExp⟩) ∧
    (∀ f, eval scope e = .error f →
      ∃ refusal, reference scope e = .error refusal ∧ refusal.ShownAs f) := by
  have hagrees := eval_agrees h
  generalize eval scope e = r at hagrees
  generalize reference scope e = x at hagrees
  cases hagrees with
  | ok =>
    refine ⟨by simp, ?_, by simp⟩
    rintro q ⟨⟩
    rfl
  | error hshown =>
    refine ⟨by simp, by simp, ?_⟩
    rintro f ⟨⟩
    exact ⟨_, rfl, hshown⟩

/-- `(2 m) ^ 3` is `8 m^3`. -/
theorem eval_refines_cube_of_two_metres :
    ∃ q, eval .empty (binary .pow (unary (.attach (.decimal (.base .length) 0) "m")
        (literal (.ofScalar 2))) (literal (.ofScalar (3 : Rat)))) = .ok q ∧
      q.dim = (Dimension.base .length).pow 3 ∧
      q.mantissa * q.unit.multiplier * 10 ^ q.unit.decExp = 8 := by
  have hplain : Plain .empty (binary .pow (unary (.attach (.decimal (.base .length) 0) "m")
      (literal (.ofScalar 2))) (literal (.ofScalar (3 : Rat)))) := by
    refine .pow (.attach (.literal _)) (.literal _) ?_
    rintro p ⟨⟩
    decide +kernel
  have hreference : reference .empty (binary .pow (unary (.attach (.decimal (.base .length) 0) "m")
      (literal (.ofScalar 2))) (literal (.ofScalar (3 : Rat)))) =
        .ok ⟨(Dimension.base .length).pow 3, 8⟩ := by
    decide +kernel
  obtain ⟨hiff, hvalue, -⟩ := eval_refines .empty _ hplain
  obtain ⟨q, hq⟩ := hiff.mpr ⟨_, hreference⟩
  have hamount := (hvalue q hq).symm.trans hreference
  simp only [Except.ok.injEq, Amount.mk.injEq] at hamount
  exact ⟨q, hq, hamount⟩

end Expr
end Mensura
