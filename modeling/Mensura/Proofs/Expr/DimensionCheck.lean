import Mensura.Proofs.Expr.Binding
import Mensura.Proofs.Expr.Dependence
import Mensura.Proofs.Expr.Reference
import Mensura.Proofs.Faults
import Mensura.Proofs.Quantity.Exponent

/-!
# Dimensions do not depend on values

Two runs of the same expression, in scopes that give the same names values of the same dimensions.
The numbers may differ, and a number may end either run early: a division by zero, a logarithm of
something negative.  What the calculator says about dimensions, argument counts and names may not
differ.

`Coherent R` relates the outcomes of two runs: two answers are related by `R`, and a failed check
on one side never meets an answer on the other.  It goes through chains of steps, so it is enough
to look at every operation once: its errors are no checks (`Unchecked`), and the dimension of its
answer is a function of the dimensions of its operands.  Powers alone also look at a value, that of
the exponent, which is therefore asked to hold no names.
-/

set_option autoImplicit false

namespace Mensura

/-! ## Checks -/

/-- The errors that are found without looking at a number: dimensions that do not match, wrong
numbers of operands or arguments, functions and names that nobody knows. -/
def ErrorKind.isCheck : ErrorKind → Bool
  | mismatch | arity | unknownFunction | undefinedSymbol => true
  | unit | domain | parse => false

theorem ErrorKind.isCheck_iff {kind : ErrorKind} :
    kind.isCheck = true ↔ kind ∈ [mismatch, arity, unknownFunction, undefinedSymbol] := by
  cases kind <;> decide

/-- A calculation does not stop at a failed check. -/
def Unchecked {β : Type} (r : Result β) : Prop :=
  ∀ e, r = .error (.calc e) → e.kind.isCheck = false

namespace Unchecked

variable {β γ : Type}

theorem ok {b : β} : Unchecked (.ok b : Result β) := by
  rintro e ⟨⟩

theorem pure {b : β} : Unchecked (Pure.pure b : Result β) :=
  ok

theorem fault {f : Fault} : Unchecked (.error (.fault f) : Result β) := by
  rintro e ⟨⟩

theorem fail {e : CalcError} (h : e.kind.isCheck = false) :
    Unchecked (Mensura.fail e : Result β) := by
  rintro _ ⟨⟩
  exact h

theorem lift {x : Except Fault β} : Unchecked (liftM x : Result β) :=
  fun _ h ↦ absurd h Quantity.liftM_ne_calc

theorem bind {r : Result β} {f : β → Result γ} (hr : Unchecked r) (hf : ∀ b, Unchecked (f b)) :
    Unchecked (r >>= f) := by
  intro e h
  rcases bind_eq_error.mp h with h | ⟨b, -, h⟩
  · exact hr e h
  · exact hf b e h

theorem ite {c : Prop} [Decidable c] {r s : Result β} (hr : Unchecked r) (hs : Unchecked s) :
    Unchecked (if c then r else s) := by
  split <;> assumption

end Unchecked

/-- A chain that always ends in a failure has no answer. -/
theorem bind_ne_ok {β γ : Type} {r : Result β} {f : β → Result γ} {c : γ}
    (h : ∀ b, f b ≠ .ok c) : (r >>= f) ≠ .ok c := by
  intro hc
  obtain ⟨b, -, hb⟩ := bind_eq_ok.mp hc
  exact h b hb

/-! ## Two runs -/

/-- The outcomes of two runs: their answers are related, and where one stops at a failed check the
other has no answer. -/
structure Coherent {β : Type} (R : β → β → Prop) (r r' : Result β) : Prop where
  answers : ∀ b b', r = .ok b → r' = .ok b' → R b b'
  check : ∀ e, r = .error (.calc e) → e.kind.isCheck = true → ∀ b', r' ≠ .ok b'
  check' : ∀ e, r' = .error (.calc e) → e.kind.isCheck = true → ∀ b, r ≠ .ok b

namespace Coherent

variable {β γ : Type} {R : β → β → Prop} {S : γ → γ → Prop}

theorem ok {b b' : β} (h : R b b') : Coherent R (.ok b) (.ok b') where
  answers := by
    rintro _ _ ⟨⟩ ⟨⟩
    exact h
  check := by rintro e ⟨⟩
  check' := by rintro e ⟨⟩

/-- Two runs that both fail, whatever for. -/
theorem of_fails {r r' : Result β} (h : ∀ b, r ≠ .ok b) (h' : ∀ b, r' ≠ .ok b) :
    Coherent R r r' where
  answers b _ hb := absurd hb (h b)
  check _ _ _ := h'
  check' _ _ _ := h

/-- Two runs that check nothing. -/
theorem of_unchecked {r r' : Result β} (hr : Unchecked r) (hr' : Unchecked r')
    (h : ∀ b b', r = .ok b → r' = .ok b' → R b b') : Coherent R r r' where
  answers := h
  check e he hcheck := by simp [hr e he] at hcheck
  check' e he hcheck := by simp [hr' e he] at hcheck

/-- A run is coherent with itself. -/
theorem refl (hR : ∀ b, R b b) (r : Result β) : Coherent R r r := by
  cases r with
  | ok b => exact .ok (hR b)
  | error e => exact .of_fails (by rintro b ⟨⟩) (by rintro b ⟨⟩)

/-- Chains of steps are coherent if their steps are. -/
theorem bind {r r' : Result β} {f f' : β → Result γ} (hr : Coherent R r r')
    (hf : ∀ b b', R b b' → Coherent S (f b) (f' b')) : Coherent S (r >>= f) (r' >>= f') where
  answers c c' h h' := by
    obtain ⟨b, hb, hc⟩ := bind_eq_ok.mp h
    obtain ⟨b', hb', hc'⟩ := bind_eq_ok.mp h'
    exact (hf b b' (hr.answers b b' hb hb')).answers c c' hc hc'
  check e h hcheck c' h' := by
    obtain ⟨b', hb', hc'⟩ := bind_eq_ok.mp h'
    rcases bind_eq_error.mp h with h | ⟨b, hb, hc⟩
    · exact hr.check e h hcheck b' hb'
    · exact (hf b b' (hr.answers b b' hb hb')).check e hc hcheck c' hc'
  check' e h' hcheck c h := by
    obtain ⟨b, hb, hc⟩ := bind_eq_ok.mp h
    rcases bind_eq_error.mp h' with h' | ⟨b', hb', hc'⟩
    · exact hr.check' e h' hcheck b hb
    · exact (hf b b' (hr.answers b b' hb hb')).check' e hc' hcheck c hc

end Coherent

variable {α : Type} [Scalar α]

/-! ## Units and quantities -/

namespace PhysUnit

theorem ofParts_unchecked (dim : Dimension) (decExp : Int) (m : α) :
    Unchecked (ofParts dim decExp m) :=
  fun _ h ↦ absurd h ofParts_ne_calc

theorem pow_unchecked (u : PhysUnit α) (n : Int) : Unchecked (u.pow n) := by
  rw [pow]
  refine .ite (.ite .pure (.bind .lift fun _ ↦ .fail rfl)) ?_
  split
  · exact ofParts_unchecked _ _ _
  · exact .bind .lift fun _ ↦ .bind .lift fun _ ↦ .fail rfl

end PhysUnit

namespace Quantity

/-- Two quantities of one dimension. -/
def Alike (q p : Quantity α) : Prop :=
  q.dim = p.dim

theorem Alike.refl (q : Quantity α) : q.Alike q :=
  rfl

/-- A calculation that fails no check, and whose answer has a certain dimension. -/
structure Measured (dim : Dimension) (r : Result (Quantity α)) : Prop where
  unchecked : Unchecked r
  dim_eq : ∀ v, r = .ok v → v.dim = dim

namespace Measured

variable {dim : Dimension} {r s : Result (Quantity α)}

theorem of_error {e : Failure} (h : Unchecked (.error e : Result (Quantity α))) :
    Measured dim (.error e : Result (Quantity α)) :=
  ⟨h, by rintro v ⟨⟩⟩

theorem fail {e : CalcError} (h : e.kind.isCheck = false) :
    Measured dim (Mensura.fail e : Result (Quantity α)) :=
  .of_error (.fail h)

theorem bind {β : Type} {r : Result β} {f : β → Result (Quantity α)} (hr : Unchecked r)
    (hf : ∀ b, r = .ok b → Measured dim (f b)) : Measured dim (r >>= f) where
  unchecked := by
    cases r with
    | ok b => exact (hf b rfl).unchecked
    | error e =>
      rintro _ ⟨⟩
      exact hr _ rfl
  dim_eq v h := by
    obtain ⟨b, hb, hv⟩ := bind_eq_ok.mp h
    exact (hf b hb).dim_eq v hv

theorem ite {c : Prop} [Decidable c] (hr : Measured dim r) (hs : Measured dim s) :
    Measured dim (if c then r else s) := by
  split <;> assumption

/-- Two calculations whose answers have one dimension. -/
theorem coherent (hr : Measured dim r) (hs : Measured dim s) : Coherent Alike r s :=
  .of_unchecked hr.unchecked hs.unchecked fun v w hv hw ↦
    (hr.dim_eq v hv).trans (hs.dim_eq w hw).symm

end Measured

theorem normalize_measured (q : Quantity α) : Measured q.dim q.normalize where
  unchecked :=
    .ite .ok (.ite (.fail rfl) (.bind (PhysUnit.ofParts_unchecked _ _ _) fun _ ↦ .pure))
  dim_eq _ := normalize_dim

/-- A unit that is computed first, and the quantity that is normalized with it. -/
theorem ofParts_normalize_measured (dim : Dimension) (e : Int) (m x : α) :
    Measured dim (PhysUnit.ofParts dim e m >>= fun u ↦ normalize ⟨x, u⟩) := by
  refine .bind (PhysUnit.ofParts_unchecked _ _ _) fun u hu ↦ ?_
  rw [← PhysUnit.ofParts_dim hu]
  exact normalize_measured ⟨x, u⟩

theorem withUnit_measured (q : Quantity α) (u : PhysUnit α) :
    Measured (q.dim * u.dim) (q.withUnit u) :=
  ofParts_normalize_measured _ _ _ _

theorem neg_measured (q : Quantity α) : Measured q.dim q.neg :=
  normalize_measured ⟨-q.mantissa, q.unit⟩

theorem mul_measured (q p : Quantity α) : Measured (q.dim * p.dim) (q.mul p) :=
  ofParts_normalize_measured _ _ _ _

theorem div_measured (q p : Quantity α) : Measured (q.dim / p.dim) (q.div p) :=
  .ite (.fail rfl) (ofParts_normalize_measured _ _ _ _)

theorem ofAligned_measured (dim : Dimension) (ref : PhysUnit α) (x : α) :
    Measured dim (ofAligned dim ref x) :=
  ofParts_normalize_measured _ _ _ _

theorem powInt_unchecked (q : Quantity α) (n : Int) : Unchecked (q.powInt n) := by
  refine .bind (PhysUnit.pow_unchecked _ _) fun unit ↦ .ite (.ite (.fail rfl) .pure) ?_
  split
  · exact (normalize_measured _).unchecked
  · exact .bind .lift fun _ ↦ .bind .lift fun _ ↦ .fail rfl

theorem powFrac_unchecked (q : Quantity α) (p : α) : Unchecked (q.powFrac p) := by
  rw [powFrac]
  split
  · exact .fail rfl
  refine .ite (.bind .lift fun _ ↦ .fail rfl) (.ite (.ite (.fail rfl) .pure) ?_)
  split
  · exact (normalize_measured _).unchecked
  · exact .bind .lift fun _ ↦ .fail rfl
  · exact .fault

theorem pow_unchecked (q p : Quantity α) : Unchecked (q.pow p) := by
  rw [pow]
  refine .ite (.bind .lift fun _ ↦ .fail rfl) (.ite (.fail rfl) ?_)
  split
  · exact powInt_unchecked q _
  · exact .ite (powFrac_unchecked q _) (.bind .lift fun _ ↦ .fail rfl)

/-- The power of the dimension that an exponent asks for. -/
def exponentOf (p : Quantity α) : Rat :=
  match Scalar.toInt? p.value with
  | some n => n
  | none => (Scalar.rationalize? p.value).getD 0

theorem pow_dim {q p v : Quantity α} (h : q.pow p = .ok v) :
    v.dim = q.dim.pow p.exponentOf := by
  rw [pow] at h
  split at h
  · exact absurd h (bind_ne_ok fun _ ↦ fail_ne_ok)
  split at h
  · exact absurd h fail_ne_ok
  split at h
  · next n hn =>
    have hexponent : p.exponentOf = n := by rw [exponentOf, hn]
    rw [hexponent]
    exact powInt_dim h
  · next hn =>
    have hexponent : p.exponentOf = (Scalar.rationalize? p.value).getD 0 := by rw [exponentOf, hn]
    rw [hexponent]
    split at h
    · cases hr : Scalar.rationalize? p.value with
      | some r => exact powFrac_dim hr h
      | none =>
        rw [powFrac_inexact hr] at h
        cases h
    · exact absurd h (bind_ne_ok fun _ ↦ fail_ne_ok)

/-- The dimension of a power depends on the value of its exponent. -/
theorem pow_measured (q p : Quantity α) : Measured (q.dim.pow p.exponentOf) (q.pow p) :=
  ⟨pow_unchecked q p, fun _ ↦ pow_dim⟩

theorem mismatch_ne_ok (error : Dimension → Dimension → CalcError) (a b v : Quantity α) :
    mismatch error a b ≠ .ok v :=
  bind_ne_ok fun _ ↦ bind_ne_ok fun _ ↦ fail_ne_ok

/-- Sums and differences: dimensions that differ on one side differ on the other. -/
theorem aligned_coherent {error : Dimension → Dimension → CalcError} {ref ref' : PhysUnit α}
    {x x' : α} {a a' b b' : Quantity α} (ha : a.Alike a') (hb : b.Alike b') :
    Coherent Alike (if a.dim = b.dim then ofAligned a.dim ref x else mismatch error a b)
      (if a'.dim = b'.dim then ofAligned a'.dim ref' x' else mismatch error a' b') := by
  rw [show a.dim = a'.dim from ha, show b.dim = b'.dim from hb]
  split
  · exact (ofAligned_measured _ _ _).coherent (ofAligned_measured _ _ _)
  · exact .of_fails (mismatch_ne_ok _ _ _) (mismatch_ne_ok _ _ _)

end Quantity

open Quantity

namespace Operator

variable {a a' b b' : Quantity α}

theorem arity_eq (op : Operator α) : op.arity = 1 ∨ op.arity = 2 := by
  cases op <;> simp [arity]

theorem applyTo_coherent_unary {op : Operator α} (hop : op.arity = 1) (ha : a.Alike a') :
    Coherent Alike (op.applyTo [a]) (op.applyTo [a']) := by
  have hdim : a.dim = a'.dim := ha
  cases op with
  | attach u label => exact (withUnit_measured a u).coherent (hdim ▸ withUnit_measured a' u)
  | neg => exact (neg_measured a).coherent (hdim ▸ neg_measured a')
  | _ => cases hop

/-- The operators of two operands other than the power. -/
theorem applyTo_coherent_binary {op : Operator α} (hop : op.arity = 2) (hpow : op ≠ .pow)
    (ha : a.Alike a') (hb : b.Alike b') :
    Coherent Alike (op.applyTo [a, b]) (op.applyTo [a', b']) := by
  have hdim : a.dim = a'.dim := ha
  have hdim' : b.dim = b'.dim := hb
  cases op with
  | add | sub => exact aligned_coherent ha hb
  | mul => exact (mul_measured a b).coherent (hdim ▸ hdim' ▸ mul_measured a' b')
  | div => exact (div_measured a b).coherent (hdim ▸ hdim' ▸ div_measured a' b')
  | pow => exact absurd rfl hpow
  | _ => cases hop

/-- Powers of one exponent. -/
theorem applyTo_coherent_pow (ha : a.Alike a') (p : Quantity α) :
    Coherent Alike (Operator.pow.applyTo [a, p]) (Operator.pow.applyTo [a', p]) := by
  have hdim : a.dim = a'.dim := ha
  exact (pow_measured a p).coherent (hdim ▸ pow_measured a' p)

end Operator

/-! ## Functions -/

namespace NamedFunction

variable {as bs : List (Quantity α)}

/-- What depends on dimensions alone is found in both lists or in neither. -/
theorem find?_eq_none_iff_of_alike {p p' : Quantity α → Bool} (h : List.Forall₂ Alike as bs)
    (hp : ∀ a b : Quantity α, a.Alike b → p a = p' b) :
    as.find? p = none ↔ bs.find? p' = none := by
  induction h with
  | nil => simp
  | cons hab _ ih => simp_all [hp _ _ hab]

/-- Two runs that search for something to complain about. -/
theorem coherent_of_search {β : Type} {R : β → β → Prop} {o o' : Option (Quantity α)}
    {complain complain' : Quantity α → Result β} {r r' : Result β} (hr : Coherent R r r')
    (hcomplain : ∀ q b, complain q ≠ .ok b) (hcomplain' : ∀ q b, complain' q ≠ .ok b) :
    (o = none ↔ o' = none) →
      Coherent R (match o with | some q => complain q | none => r)
        (match o' with | some q => complain' q | none => r') := by
  intro ho
  cases o with
  | none =>
    obtain rfl := ho.mp rfl
    exact hr
  | some q =>
    obtain ⟨q', rfl⟩ := Option.ne_none_iff_exists'.mp fun h ↦ Option.some_ne_none q (ho.mpr h)
    exact .of_fails (hcomplain q) (hcomplain' q')

theorem resultDimension_coherent (f : NamedFunction) (h : List.Forall₂ Alike as bs) :
    Coherent (· = ·) (f.resultDimension as) (f.resultDimension bs) := by
  unfold resultDimension
  cases f.policy with
  | plain =>
    refine coherent_of_search (.ok rfl) (fun _ _ ↦ bind_ne_ok fun _ ↦ fail_ne_ok)
      (fun _ _ ↦ bind_ne_ok fun _ ↦ fail_ne_ok) (find?_eq_none_iff_of_alike h fun a b hab ↦ ?_)
    rw [isDimensionless, isDimensionless, PhysUnit.isDimensionless, PhysUnit.isDimensionless,
      show a.unit.dim = b.unit.dim from hab]
  | keep =>
    cases h with
    | nil => exact .ok rfl
    | @cons first first' as bs hfirst h =>
      have hdim : first.dim = first'.dim := hfirst
      refine coherent_of_search (.ok hdim)
        (fun _ _ ↦ bind_ne_ok fun _ ↦ bind_ne_ok fun _ ↦ fail_ne_ok)
        (fun _ _ ↦ bind_ne_ok fun _ ↦ bind_ne_ok fun _ ↦ fail_ne_ok)
        (find?_eq_none_iff_of_alike h fun a b hab ↦ ?_)
      rw [show a.dim = b.dim from hab, hdim]

/-- A function that has no value fails no check. -/
theorem failure_unchecked (f : NamedFunction) (e : FunctionFault) {β : Type} :
    Unchecked (.error (f.failure e) : Result β) := by
  cases e with
  | loneArgument => exact .fault
  | _ => exact .fail rfl

/-- The value of a function, once its dimension is known. -/
theorem ofCall_measured (f : NamedFunction) (dim : Dimension) (x : Except FunctionFault α) :
    Measured dim (match x with
      | .error e => .error (f.failure e)
      | .ok x =>
        if Scalar.isFinite x then Quantity.normalize ⟨x, PhysUnit.decimal dim 0⟩
        else fail (.functionNotFinite f.name)) := by
  cases x with
  | error e => exact .of_error (failure_unchecked f e)
  | ok x => exact .ite (normalize_measured ⟨x, PhysUnit.decimal dim 0⟩) (.fail rfl)

theorem applyTo_coherent (f : NamedFunction) (h : List.Forall₂ Alike as bs) :
    Coherent Alike (f.applyTo as) (f.applyTo bs) := by
  rw [applyTo, applyTo, h.length_eq]
  split
  · exact .of_fails (fun _ ↦ fail_ne_ok) (fun _ ↦ fail_ne_ok)
  · refine .bind (resultDimension_coherent f h) ?_
    rintro dim _ rfl
    exact (ofCall_measured f dim _).coherent (ofCall_measured f dim _)

theorem callByName_coherent (name : String) (h : List.Forall₂ Alike as bs) :
    Coherent Alike (callByName name as) (callByName name bs) := by
  rw [callByName, callByName]
  split
  · exact applyTo_coherent _ h
  · exact .of_fails (fun _ ↦ fail_ne_ok) (fun _ ↦ fail_ne_ok)

end NamedFunction

/-! ## Expressions -/

/-- Two scopes that bind the same names, each to quantities of one dimension. -/
def Scope.Alike (s t : Scope α) : Prop :=
  ∀ name, Option.Rel Quantity.Alike (s.find? name) (t.find? name)

theorem Scope.Alike.symm {s t : Scope α} (h : s.Alike t) : t.Alike s := by
  intro name
  have hname := h name
  generalize s.find? name = o, t.find? name = o' at hname
  cases hname with
  | some hdim => exact .some hdim.symm
  | none => exact .none

theorem Scope.Alike.refl (s : Scope α) : s.Alike s := by
  intro name
  cases s.find? name with
  | some q => exact .some (Quantity.Alike.refl q)
  | none => exact .none

/-- Scopes stay alike when they bind a name to quantities of one dimension. -/
theorem Scope.Alike.bind {s t : Scope α} (h : s.Alike t) (name : String) {q p : Quantity α}
    (hdim : q.Alike p) : (s.bind name q).Alike (t.bind name p) := by
  intro other
  rw [Scope.find?_bind, Scope.find?_bind]
  split
  · exact .some hdim
  · exact h other

namespace Expr

variable {s t : Scope α}

/-- No exponent depends on the scope: no name occurs inside the right operand of a power. -/
def FixedExponents (e : Expr α) : Prop :=
  ∀ a b, Occurs (binary .pow a b) e → ∀ name, ¬Occurs (ident name) b

theorem FixedExponents.of_mem_args {function : String} {args : List (Expr α)} {e : Expr α}
    (h : FixedExponents (call function args)) (he : e ∈ args) : FixedExponents e :=
  fun a b hab ↦ h a b (.argument he hab)

theorem FixedExponents.of_mem_operands {op : Operator α} {operands : List (Expr α)} {e : Expr α}
    (h : FixedExponents (apply op operands)) (he : e ∈ operands) : FixedExponents e :=
  fun a b hab ↦ h a b (.operand he hab)

/-- An expression without names has the same value everywhere. -/
theorem eval_eq_of_nameless {e : Expr α} (h : ∀ name, ¬Occurs (ident name) e) :
    eval s e = eval t e :=
  eval_congr fun name hname ↦ absurd hname (h name)

theorem resolve_coherent (h : s.Alike t) (name : String) :
    Coherent Quantity.Alike (resolve s name) (resolve t name) := by
  have hname := h name
  rw [resolve, resolve]
  generalize s.find? name = o, t.find? name = o' at hname
  cases hname with
  | some hdim => exact .ok hdim
  | none => exact .refl Alike.refl _

theorem evalAll_coherent {es : List (Expr α)}
    (h : ∀ e ∈ es, Coherent Quantity.Alike (eval s e) (eval t e)) :
    Coherent (List.Forall₂ Quantity.Alike) (evalAll s es) (evalAll t es) := by
  induction es with
  | nil => exact .ok .nil
  | cons e es ih =>
    refine .bind (h e List.mem_cons_self) fun v w hv ↦ ?_
    refine .bind (ih fun a ha ↦ h a (List.mem_cons_of_mem _ ha)) fun vs ws hvs ↦ ?_
    exact .ok (.cons hv hvs)

theorem eval_binary_coherent {op : Operator α} (hop : op.arity = 2) {a b : Expr α}
    (hfixed : FixedExponents (binary op a b))
    (ha : Coherent Quantity.Alike (eval s a) (eval t a))
    (hb : Coherent Quantity.Alike (eval s b) (eval t b)) :
    Coherent Quantity.Alike (eval s (binary op a b)) (eval t (binary op a b)) := by
  rw [eval_binary hop, eval_binary hop]
  refine .bind ha fun v v' hv ↦ ?_
  by_cases hpow : op = .pow
  · -- The exponent holds no names, so both runs raise to the same power.
    subst hpow
    rw [eval_eq_of_nameless (s := s) (t := t) (hfixed a b .here)]
    refine .bind (.refl (R := (· = ·)) (fun _ ↦ rfl) _) ?_
    rintro p _ rfl
    exact Operator.applyTo_coherent_pow hv p
  · exact .bind hb fun w w' hw ↦ Operator.applyTo_coherent_binary hop hpow hv hw

theorem eval_coherent (h : s.Alike t) {e : Expr α} (hfixed : FixedExponents e) :
    Coherent Quantity.Alike (eval s e) (eval t e) := by
  induction e using inductionOn with
  | literal value =>
    rw [eval, eval]
    exact .refl Alike.refl _
  | ident name =>
    rw [eval, eval]
    exact resolve_coherent h name
  | call function args ih =>
    rw [eval, eval]
    exact .bind (evalAll_coherent fun a ha ↦ ih a ha (hfixed.of_mem_args ha)) fun vs ws hvs ↦
      NamedFunction.callByName_coherent function hvs
  | apply op operands ih =>
    have hparts := fun a ha ↦ ih a ha (hfixed.of_mem_operands ha)
    by_cases hcount : operands.length = op.arity
    · rcases op.arity_eq with harity | harity
      · obtain ⟨a, rfl⟩ := List.length_eq_one_iff.mp (hcount.trans harity)
        rw [← unary, eval_unary harity, eval_unary harity]
        exact .bind (hparts a List.mem_cons_self) fun v v' hv ↦
          op.applyTo_coherent_unary harity hv
      · obtain ⟨a, b, rfl⟩ := List.length_eq_two.mp (hcount.trans harity)
        exact eval_binary_coherent harity hfixed (hparts a (by simp)) (hparts b (by simp))
    · rw [eval, eval, if_neg hcount, if_neg hcount]
      exact .of_fails (fun _ ↦ fail_ne_ok) (fun _ ↦ fail_ne_ok)

/-- **Dimension checking does not depend on values.**  Let two scopes bind the same names to
quantities of pairwise equal dimensions, and let no exponent of an expression hold a name.  Where
both runs of the expression have an answer, the answers have the same dimension; and where one of
them stops at a check of dimensions, argument counts, functions or names, the other has none. -/
theorem eval_dimension_independent (s t : Scope α) (h : s.Alike t) (e : Expr α)
    (hfixed : FixedExponents e) :
    (∀ q p, eval s e = .ok q → eval t e = .ok p → q.dim = p.dim) ∧
    (∀ error, eval s e = .error (.calc error) →
      error.kind ∈ [.mismatch, .arity, .unknownFunction, .undefinedSymbol] →
      ∀ p, eval t e ≠ .ok p) ∧
    (∀ error, eval t e = .error (.calc error) →
      error.kind ∈ [.mismatch, .arity, .unknownFunction, .undefinedSymbol] →
      ∀ q, eval s e ≠ .ok q) := by
  have hcoherent := eval_coherent h hfixed
  refine ⟨hcoherent.answers, fun error herror hkind ↦ ?_, fun error herror hkind ↦ ?_⟩
  · exact hcoherent.check error herror (ErrorKind.isCheck_iff.mpr hkind)
  · exact hcoherent.check' error herror (ErrorKind.isCheck_iff.mpr hkind)

/-- The constants, and a number of metres for `x`. -/
def metres (x : Float) : Scope Float :=
  Scope.constants.bind "x" ⟨x, .decimal (.base .length) 0⟩

/-- `x ^ 2`. -/
def square : Expr Float :=
  binary .pow (ident "x") (literal (.ofScalar 2))

theorem square_fixedExponents : FixedExponents square := by
  intro a b h name
  rcases occurs_binary.mp h with h | h | h
  · obtain ⟨-, rfl⟩ : a = ident "x" ∧ b = literal (.ofScalar 2) := by simpa [binary] using h
    rintro ⟨⟩
  · cases h
  · cases h

theorem exists_eq_calc {β : Type} {r : Result β} {kind : ErrorKind}
    (h : (match r with
      | .error (.calc error) => error.kind == kind
      | _ => false) = true) : ∃ error, r = .error (.calc error) ∧ error.kind = kind := by
  rcases r with (error | f) | b
  · exact ⟨error, rfl, eq_of_beq h⟩
  · cases h
  · cases h

/-- Whatever length `x` is, `x ^ 2` is an area, and `x ^ 2 + x` is nothing at all. -/
theorem eval_dimension_independent_square :
    (∃ q p, eval (metres 1) square = .ok q ∧ eval (metres 0) square = .ok p ∧ q.dim = p.dim) ∧
    ∃ error, eval (metres 1) (binary .add square (ident "x")) = .error (.calc error) ∧
      error.kind = .mismatch ∧ ∀ p, eval (metres 0) (binary .add square (ident "x")) ≠ .ok p := by
  have hscopes : (metres 1).Alike (metres 0) := (Scope.Alike.refl _).bind _ rfl
  have hsum : FixedExponents (binary .add square (ident "x")) := by
    intro a b h
    rcases occurs_binary.mp h with h | h | h
    · simp [binary] at h
    · exact square_fixedExponents a b h
    · cases h
  obtain ⟨q, hq⟩ := exists_eq_ok (by decide +kernel : (eval (metres 1) square).isOk = true)
  obtain ⟨p, hp⟩ := exists_eq_ok (by decide +kernel : (eval (metres 0) square).isOk = true)
  have hdim := (eval_dimension_independent _ _ hscopes square square_fixedExponents).1 q p hq hp
  obtain ⟨error, herror, hkind⟩ : ∃ error,
      eval (metres 1) (binary .add square (ident "x")) = .error (.calc error) ∧
        error.kind = .mismatch := exists_eq_calc (by decide +kernel)
  have hnone := (eval_dimension_independent _ _ hscopes _ hsum).2.1 error herror (by simp [hkind])
  exact ⟨⟨q, p, hq, hp, hdim⟩, error, herror, hkind, hnone⟩

end Expr

end Mensura
