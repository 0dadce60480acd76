import Mensura.Proofs.Expr.Numeral
import Mensura.Scalar.Binary64

/-!
# Units in exponents

A power binds tighter than a unit: `2^3 m` is `(2^3) m`.  A sign, however, reads on with a power
of its own, which a unit reaches, also where the sign stands in an exponent: `2^-3 m` is
`2^(-(3 m))`, and so is `2^+3 m` a power with a unit in its exponent.

This file says exactly when that happens.  `UnitUnderSign` walks over the tokens of a text without
parentheses from left to right and remembers one thing, whether the current factor has a `^` with
a sign directly behind it already; it holds if a unit is met while that is so.
`unitInExponent_iff_unitUnderSign` shows that the tree of the text has a unit inside the right
operand of a power exactly then.

The proof is an induction over derivations.  For a part read where the factor's sign is `signed`,
the units it adds count all if `signed`, and otherwise as far as they stand in exponents of its
own; `Marked` is that count.
-/

set_option autoImplicit false

namespace Mensura
namespace Expr

variable {α : Type} [Scalar α]

/-! ## Units in trees -/

/-- One expression is part of another. -/
inductive Occurs (x : Expr α) : Expr α → Prop
  | here : Occurs x x
  | argument {function : String} {args : List (Expr α)} {e : Expr α} :
    e ∈ args → Occurs x e → Occurs x (call function args)
  | operand {op : Operator α} {operands : List (Expr α)} {e : Expr α} :
    e ∈ operands → Occurs x e → Occurs x (apply op operands)

/-- A unit is attached somewhere in the expression. -/
def HoldsUnit (e : Expr α) : Prop :=
  ∃ u label operands, Occurs (apply (.attach u label) operands) e

/-- A unit is attached somewhere inside the right operand of a power. -/
def UnitInExponent (e : Expr α) : Prop :=
  ∃ a b, Occurs (binary .pow a b) e ∧ HoldsUnit b

theorem Occurs.trans {x y z : Expr α} (hxy : Occurs x y) (hyz : Occurs y z) : Occurs x z := by
  induction hyz with
  | here => exact hxy
  | argument hm _ ih => exact .argument hm ih
  | operand hm _ ih => exact .operand hm ih

theorem occurs_literal {x : Expr α} {value : Quantity α} :
    Occurs x (literal value) ↔ x = literal value :=
  ⟨fun h ↦ by cases h; rfl, fun h ↦ h ▸ .here⟩

theorem occurs_ident {x : Expr α} {name : String} : Occurs x (ident name) ↔ x = ident name :=
  ⟨fun h ↦ by cases h; rfl, fun h ↦ h ▸ .here⟩

theorem occurs_call {x : Expr α} {function : String} {args : List (Expr α)} :
    Occurs x (call function args) ↔ x = call function args ∨ ∃ e ∈ args, Occurs x e := by
  constructor
  · intro h
    cases h with
    | here => exact .inl rfl
    | argument hm h => exact .inr ⟨_, hm, h⟩
  · rintro (rfl | ⟨e, hm, h⟩)
    · exact .here
    · exact .argument hm h

theorem occurs_apply {x : Expr α} {op : Operator α} {operands : List (Expr α)} :
    Occurs x (apply op operands) ↔ x = apply op operands ∨ ∃ e ∈ operands, Occurs x e := by
  constructor
  · intro h
    cases h with
    | here => exact .inl rfl
    | operand hm h => exact .inr ⟨_, hm, h⟩
  · rintro (rfl | ⟨e, hm, h⟩)
    · exact .here
    · exact .operand hm h

theorem occurs_unary {x : Expr α} {op : Operator α} {a : Expr α} :
    Occurs x (unary op a) ↔ x = unary op a ∨ Occurs x a := by
  simp [unary, occurs_apply]

theorem occurs_binary {x : Expr α} {op : Operator α} {a b : Expr α} :
    Occurs x (binary op a b) ↔ x = binary op a b ∨ Occurs x a ∨ Occurs x b := by
  simp [binary, occurs_apply]

theorem not_holdsUnit_literal (q : Quantity α) : ¬HoldsUnit (literal q) := by
  rintro ⟨u, label, operands, h⟩
  cases h

theorem not_holdsUnit_of_literalOf {t : Token} {e : Expr α} (h : literalOf t = .ok e) :
    ¬HoldsUnit e := by
  obtain ⟨q, rfl⟩ := exists_literal_of_literalOf h
  exact not_holdsUnit_literal q

theorem not_holdsUnit_ident (name : String) : ¬HoldsUnit (ident name : Expr α) := by
  rintro ⟨u, label, operands, h⟩
  cases h

theorem holdsUnit_attach (u : PhysUnit α) (label : String) (e : Expr α) :
    HoldsUnit (unary (.attach u label) e) :=
  ⟨u, label, [e], .here⟩

theorem holdsUnit_neg {e : Expr α} : HoldsUnit (unary .neg e) ↔ HoldsUnit e := by
  simp only [HoldsUnit, occurs_unary]
  simp [unary]

/-- Only attaching takes one operand and is a unit. -/
theorem holdsUnit_binary {op : Operator α} (hop : op.arity = 2) {a b : Expr α} :
    HoldsUnit (binary op a b) ↔ HoldsUnit a ∨ HoldsUnit b := by
  have hne : ∀ u label, op ≠ .attach u label := by
    rintro u label rfl
    simp [Operator.arity] at hop
  simp only [HoldsUnit, occurs_binary]
  constructor
  · rintro ⟨u, label, operands, h | h | h⟩
    · exact absurd (by simpa [binary] using h.symm : op = _ ∧ _).1 (hne u label)
    · exact .inl ⟨u, label, operands, h⟩
    · exact .inr ⟨u, label, operands, h⟩
  · rintro (⟨u, label, operands, h⟩ | ⟨u, label, operands, h⟩)
    · exact ⟨u, label, operands, .inr (.inl h)⟩
    · exact ⟨u, label, operands, .inr (.inr h)⟩

theorem UnitInExponent.holdsUnit {e : Expr α} (h : UnitInExponent e) : HoldsUnit e := by
  obtain ⟨a, b, hab, u, label, operands, hu⟩ := h
  exact ⟨u, label, operands, (hu.trans (.operand (by simp) .here)).trans hab⟩

theorem unitInExponent_unary {op : Operator α} {e : Expr α} :
    UnitInExponent (unary op e) ↔ UnitInExponent e := by
  simp only [UnitInExponent, occurs_unary]
  simp [unary, binary]

theorem unitInExponent_pow {a b : Expr α} :
    UnitInExponent (binary .pow a b) ↔ UnitInExponent a ∨ HoldsUnit b := by
  constructor
  · rintro ⟨x, y, h, hy⟩
    rcases occurs_binary.mp h with h | h | h
    · obtain ⟨rfl, rfl⟩ : x = a ∧ y = b := by simpa [binary] using h
      exact .inr hy
    · exact .inl ⟨x, y, h, hy⟩
    · exact .inr (UnitInExponent.holdsUnit ⟨x, y, h, hy⟩)
  · rintro (⟨x, y, h, hy⟩ | h)
    · exact ⟨x, y, occurs_binary.mpr (.inr (.inl h)), hy⟩
    · exact ⟨a, b, .here, h⟩

theorem unitInExponent_binary {op : Operator α} (hop : op ≠ .pow) {a b : Expr α} :
    UnitInExponent (binary op a b) ↔ UnitInExponent a ∨ UnitInExponent b := by
  simp only [UnitInExponent, occurs_binary]
  constructor
  · rintro ⟨x, y, h | h | h, hy⟩
    · exact absurd (by simpa [binary] using h.symm : op = _ ∧ _).1 hop
    · exact .inl ⟨x, y, h, hy⟩
    · exact .inr ⟨x, y, h, hy⟩
  · rintro (⟨x, y, h, hy⟩ | ⟨x, y, h, hy⟩)
    · exact ⟨x, y, .inr (.inl h), hy⟩
    · exact ⟨x, y, .inr (.inr h), hy⟩

/-! ## Units under signs -/

/-- Where a reading of tokens stands. -/
inductive Place
  /-- Before a value: whether a `^` stands directly before it, and whether its factor has a `^`
  with a sign directly behind it. -/
  | value (behindPower signed : Bool)
  /-- Behind a value or a unit of such a factor. -/
  | behind (signed : Bool)

/-- The symbols that bind less tightly than signs. -/
def joins (t : Token) : Bool :=
  t.isSymbol "+" || t.isSymbol "-" || t.isSymbol "*" || t.isSymbol "/"

/-- Reading tokens without parentheses on from a place, one meets a unit in a factor that has a
`^` with a sign directly behind it before. -/
inductive UnitUnderSign : Place → List Token → Prop
  | unit {ts : List Token} : startsUnit ts = true → UnitUnderSign (.behind true) ts
  | pastUnit {signed : Bool} {u : UnitExpr} {ts rest : List Token} :
    startsUnit ts = true → unitExpr ts = .ok (u, rest) → UnitUnderSign (.behind signed) rest →
    UnitUnderSign (.behind signed) ts
  | pastPower {signed : Bool} {t : Token} {ts : List Token} :
    t.isSymbol "^" = true → UnitUnderSign (.value true signed) ts →
    UnitUnderSign (.behind signed) (t :: ts)
  | pastOperator {signed : Bool} {t : Token} {ts : List Token} :
    joins t = true → UnitUnderSign (.value false false) ts → UnitUnderSign (.behind signed) (t :: ts)
  | pastSign {behindPower signed : Bool} {t : Token} {ts : List Token} :
    t.isSymbol "-" = true ∨ t.isSymbol "+" = true →
    UnitUnderSign (.value false (behindPower || signed)) ts →
    UnitUnderSign (.value behindPower signed) (t :: ts)
  | pastValue {behindPower signed : Bool} {t : Token} {ts : List Token} :
    t.kind = .number ∨ t.kind = .name → UnitUnderSign (.behind signed) ts →
    UnitUnderSign (.value behindPower signed) (t :: ts)

theorem kind_of_joins {t : Token} (h : joins t = true) : t.kind = .symbol := by
  simp only [joins, Bool.or_eq_true] at h
  rcases h with ((h | h) | h) | h <;> exact (Token.isSymbol_iff.mp h).1

theorem not_power_of_joins {t : Token} (h : joins t = true) : t.isSymbol "^" = false := by
  rw [Bool.eq_false_iff]
  intro hp
  obtain ⟨hk, ht⟩ := Token.isSymbol_iff.mp hp
  simp [joins, Token.isSymbol, hk, ht] at h

/-- The operator between two operands is the power or binds less tightly than signs. -/
theorem ofToken?_cases {t : Token} {op : InfixOperator α}
    (h : InfixOperator.ofToken? t = some op) :
    (t.isSymbol "^" = true ∧ op = ⟨8, 7, .pow⟩) ∨
      (joins t = true ∧ op.left < signPower ∧ op.right < signPower ∧ op.op.arity = 2 ∧
        op.op ≠ .pow) := by
  rw [InfixOperator.ofToken?] at h
  split at h
  · next ht => cases h; simp [joins, ht, signPower, Operator.arity]
  split at h
  · next ht => cases h; simp [joins, ht, signPower, Operator.arity]
  split at h
  · next ht => cases h; simp [joins, ht, signPower, Operator.arity]
  split at h
  · next ht => cases h; simp [joins, ht, signPower, Operator.arity]
  split at h
  · next ht => cases h; exact .inl ⟨ht, rfl⟩
  · simp at h

theorem arity_of_ofToken? {t : Token} {op : InfixOperator α}
    (h : InfixOperator.ofToken? t = some op) : op.op.arity = 2 := by
  rcases ofToken?_cases h with ⟨-, rfl⟩ | ⟨-, -, -, harity, -⟩
  · rfl
  · exact harity

/-! ### One step of the walk -/

theorem unitUnderSign_sign {behindPower signed : Bool} {t : Token} {ts : List Token}
    (h : t.isSymbol "-" = true ∨ t.isSymbol "+" = true) :
    UnitUnderSign (.value behindPower signed) (t :: ts) ↔
      UnitUnderSign (.value false (behindPower || signed)) ts := by
  have hk : t.kind = .symbol := h.elim (Token.isSymbol_iff.mp · |>.1) (Token.isSymbol_iff.mp · |>.1)
  constructor
  · intro hu
    cases hu with
    | pastSign _ hu => exact hu
    | pastValue hv => simp [hk] at hv
  · exact .pastSign h

theorem unitUnderSign_value {behindPower signed : Bool} {t : Token} {ts : List Token}
    (h : t.kind = .number ∨ t.kind = .name) :
    UnitUnderSign (.value behindPower signed) (t :: ts) ↔ UnitUnderSign (.behind signed) ts := by
  constructor
  · intro hu
    cases hu with
    | pastSign hs =>
      have hk : t.kind = .symbol :=
        hs.elim (Token.isSymbol_iff.mp · |>.1) (Token.isSymbol_iff.mp · |>.1)
      simp [hk] at h
    | pastValue _ hu => exact hu
  · exact .pastValue h

theorem unitUnderSign_pastUnit {u : UnitExpr} {ts rest : List Token} (hs : startsUnit ts = true)
    (h : unitExpr ts = .ok (u, rest)) :
    UnitUnderSign (.behind false) ts ↔ UnitUnderSign (.behind false) rest := by
  constructor
  · intro hu
    cases hu with
    | pastUnit _ h' hu =>
      rw [h] at h'
      obtain ⟨rfl, rfl⟩ := by simpa using h'
      exact hu
    | pastPower ht => simp [not_startsUnit_of_symbol (Token.isSymbol_iff.mp ht).1] at hs
    | pastOperator ht => simp [not_startsUnit_of_symbol (kind_of_joins ht)] at hs
  · exact .pastUnit hs h

theorem unitUnderSign_power {signed : Bool} {t : Token} {ts : List Token}
    (h : t.isSymbol "^" = true) :
    UnitUnderSign (.behind signed) (t :: ts) ↔ UnitUnderSign (.value true signed) ts := by
  have hs := not_startsUnit_of_symbol (Token.isSymbol_iff.mp h).1 ts
  constructor
  · intro hu
    cases hu with
    | unit hu => simp [hs] at hu
    | pastUnit hu => simp [hs] at hu
    | pastPower _ hu => exact hu
    | pastOperator ht => simp [not_power_of_joins ht] at h
  · exact .pastPower h

theorem unitUnderSign_operator {signed : Bool} {t : Token} {ts : List Token}
    (h : joins t = true) :
    UnitUnderSign (.behind signed) (t :: ts) ↔ UnitUnderSign (.value false false) ts := by
  have hs := not_startsUnit_of_symbol (kind_of_joins h) ts
  constructor
  · intro hu
    cases hu with
    | unit hu => simp [hs] at hu
    | pastUnit hu => simp [hs] at hu
    | pastPower ht => simp [not_power_of_joins h] at ht
    | pastOperator _ hu => exact hu
  · exact .pastOperator h

/-- Where neither unit nor power follows, a factor ends, and its signs do not matter any more. -/
theorem unitUnderSign_settled {a : Bool} (b : Bool) {ts : List Token} (h : Settled α signPower ts) :
    UnitUnderSign (.behind a) ts ↔ UnitUnderSign (.behind b) ts := by
  have himp : ∀ a b, UnitUnderSign (.behind a) ts → UnitUnderSign (.behind b) ts := by
    intro a b hu
    have hunit : startsUnit ts = false := by
      rw [Bool.eq_false_iff]
      intro hs
      simpa [unitPower, signPower] using h.unit hs
    cases hu with
    | unit hs => simp [hunit] at hs
    | pastUnit hs => simp [hunit] at hs
    | pastPower ht =>
      simpa [signPower] using h.operator hunit _ (ofToken?_power (by simpa [peek_cons] using ht))
    | pastOperator ht hu => exact .pastOperator ht hu
  exact ⟨himp a b, himp b a⟩

/-- What a climb leaves over does not bind at its power. -/
theorem settled_of_climb {r : Registry α} {power : Nat} {left e : Expr α} {ts rest : List Token}
    (h : Derives r (.climb power left e) ts rest) : Settled α power rest := by
  generalize hp : Part.climb power left e = part at h
  induction h generalizing left with
  | attach _ _ _ _ _ ih =>
    cases hp
    exact ih rfl
  | operator _ _ _ _ _ _ ih =>
    cases hp
    exact ih rfl
  | settled h =>
    cases hp
    exact h
  | _ => cases hp

theorem settled_of_expression {r : Registry α} {power : Nat} {e : Expr α} {ts rest : List Token}
    (h : Derives r (.expression power e) ts rest) : Settled α power rest := by
  cases h with
  | expression _ h => exact settled_of_climb h

/-! ## The walk counts the units of the tree -/

/-- A unit that counts: any at all behind a sign in an exponent, else one inside an exponent. -/
def Marked (signed : Bool) (e : Expr α) : Prop :=
  if signed then HoldsUnit e else UnitInExponent e

theorem marked_true {e : Expr α} : Marked true e ↔ HoldsUnit e := Iff.rfl

theorem marked_false {e : Expr α} : Marked false e ↔ UnitInExponent e := by simp [Marked]

theorem marked_neg {m : Bool} {e : Expr α} : Marked m (unary .neg e) ↔ Marked m e := by
  cases m with
  | true => exact holdsUnit_neg
  | false => simp only [marked_false, unitInExponent_unary]

theorem marked_pow {m : Bool} {a b : Expr α} :
    Marked m (binary .pow a b) ↔ Marked m a ∨ HoldsUnit b := by
  cases m with
  | true => exact holdsUnit_binary rfl
  | false => simp only [marked_false, unitInExponent_pow]

theorem not_marked_of_not_holdsUnit {m : Bool} {e : Expr α} (h : ¬HoldsUnit e) : ¬Marked m e := by
  cases m with
  | true => exact h
  | false => exact fun hm ↦ h (marked_false.mp hm).holdsUnit

/-- The walk meets a unit under a sign in a part exactly if the part adds one that counts.  An
expression directly behind a `^` binds more tightly than units, and one inside a signed exponent
at least as tightly as signs. -/
def Part.Counts (part : Part α) (ts rest : List Token) : Prop :=
  match part with
  | .expression power e => ∀ behindPower signed : Bool,
    (power ≤ unitPower → behindPower = false) →
    (power < signPower → (behindPower || signed) = false) →
    (UnitUnderSign (.value behindPower signed) ts ↔
      Marked (behindPower || signed) e ∨ UnitUnderSign (.behind signed) rest)
  | .operand e => ∀ behindPower signed : Bool,
    (UnitUnderSign (.value behindPower signed) ts ↔
      Marked (behindPower || signed) e ∨ UnitUnderSign (.behind signed) rest)
  | .climb power left e => ∀ m signed : Bool,
    (power ≤ unitPower → m = signed) → (power < signPower → m = false) →
    (Marked m e ∨ UnitUnderSign (.behind signed) rest ↔
      Marked m left ∨ UnitUnderSign (.behind signed) ts)
  | .arguments _ => True

/-- An operand behind a sign: its factor counts as signed if the sign stands behind a `^`, and it
has ended where the operand does. -/
theorem counts_signed {r : Registry α} {e : Expr α} {t : Token} {ts rest : List Token}
    (hsign : t.isSymbol "-" = true ∨ t.isSymbol "+" = true)
    (h : Derives r (.expression signPower e) ts rest)
    (ih : (Part.expression signPower e).Counts ts rest) (behindPower signed : Bool) :
    UnitUnderSign (.value behindPower signed) (t :: ts) ↔
      Marked (behindPower || signed) e ∨ UnitUnderSign (.behind signed) rest := by
  rw [unitUnderSign_sign hsign,
    ih false (behindPower || signed) (fun _ ↦ rfl) (fun h ↦ absurd h (by simp [signPower])),
    unitUnderSign_settled signed (settled_of_expression h), Bool.false_or]

theorem counts_of_derives {r : Registry α} {part : Part α} {ts rest : List Token}
    (h : Derives r part ts rest) : (∀ t ∈ ts, t.isSymbol "(" = false) → part.Counts ts rest := by
  induction h with
  | @expression power first e ts mid rest h₁ _ ih₁ ih₂ =>
    intro hparen behindPower signed hunit hsign
    have hmid : ∀ t ∈ mid, t.isSymbol "(" = false := fun t ht ↦ hparen t (h₁.suffix.mem ht)
    have hm : power ≤ unitPower → (behindPower || signed) = signed := fun h ↦ by simp [hunit h]
    rw [ih₁ hparen behindPower signed, ih₂ hmid (behindPower || signed) signed hm hsign]
  | @number _ e _ hk hl =>
    intro _ behindPower signed
    have hno : ¬Marked (behindPower || signed) e :=
      not_marked_of_not_holdsUnit (not_holdsUnit_of_literalOf hl)
    rw [unitUnderSign_value (.inl hk)]
    simp [hno]
  | @ident t _ hk _ =>
    intro _ behindPower signed
    have hno : ¬Marked (behindPower || signed) (Expr.ident t.text : Expr α) :=
      not_marked_of_not_holdsUnit (not_holdsUnit_ident t.text)
    rw [unitUnderSign_value (.inr hk)]
    simp [hno]
  | emptyCall _ ho _ | call _ ho _ _ _ =>
    intro hparen
    obtain ⟨o, rest, he, hsym⟩ := exists_cons_of_opensCall ho
    obtain ⟨rfl, rfl⟩ := by simpa using he
    exact absurd hsym (by simp [hparen])
  | paren ho _ _ _ =>
    intro hparen
    exact absurd ho (by simp [hparen])
  | minus ht h ih =>
    intro hparen behindPower signed
    rw [counts_signed (.inl ht) h (ih fun t ht ↦ hparen t (List.mem_cons_of_mem _ ht)), marked_neg]
  | plus ht h ih =>
    intro hparen behindPower signed
    rw [counts_signed (.inr ht) h (ih fun t ht ↦ hparen t (List.mem_cons_of_mem _ ht))]
  | attach hs hp hu _ _ ih =>
    intro hparen m signed hm _
    obtain rfl := hm hp
    have hmid := fun t ht ↦ hparen t (List.mem_of_mem_drop ((unitExpr_suffix hu).mem ht))
    rw [ih hmid m m (fun _ ↦ rfl) ‹_›]
    cases m with
    | true => simp [marked_true, holdsUnit_attach, UnitUnderSign.unit hs]
    | false => rw [unitUnderSign_pastUnit hs hu, marked_false, marked_false, unitInExponent_unary]
  | @operator power left right e op t ts mid rest hs ho hp h₁ _ ih₁ ih₂ =>
    intro hparen m signed hm hlow
    have hts : ∀ t ∈ ts, t.isSymbol "(" = false := fun t ht ↦ hparen t (List.mem_cons_of_mem _ ht)
    have hmid : ∀ t ∈ mid, t.isSymbol "(" = false := fun t ht ↦ hts t (h₁.suffix.mem ht)
    rw [ih₂ hmid m signed hm hlow]
    rcases ofToken?_cases ho with ⟨ht, rfl⟩ | ⟨ht, hleft, hright, harity, hne⟩
    · -- The exponent: all of its units count, and those of the base as before.
      have hright := ih₁ hts true signed (by simp [unitPower]) (by simp [signPower])
      rw [unitUnderSign_power ht, hright, marked_pow, Bool.true_or, marked_true, or_assoc]
    · -- A looser operator starts a new factor, which no sign in an exponent reaches.
      have hpower : power < signPower := Nat.lt_of_le_of_lt hp hleft
      obtain rfl := hlow hpower
      obtain rfl := hm (by simp only [signPower, unitPower] at *; omega)
      have hright := ih₁ hts false false (fun _ ↦ rfl) (fun _ ↦ rfl)
      rw [unitUnderSign_operator ht, hright, marked_false, unitInExponent_binary hne, Bool.or_false,
        marked_false, marked_false, or_assoc]
  | settled _ => exact fun _ _ _ _ _ ↦ Iff.rfl
  | lastArgument | moreArguments => exact fun _ ↦ trivial

/-- Nothing more is met behind a stop. -/
theorem not_unitUnderSign_stop {signed : Bool} {ts : List Token} (h : (peek ts).kind = .stop) :
    ¬UnitUnderSign (.behind signed) ts := by
  intro hu
  cases hu with
  | unit hs | pastUnit hs =>
    obtain ⟨t, ts, rfl⟩ := List.exists_cons_of_ne_nil (startsUnit_ne_nil hs)
    simp only [peek_cons] at h
    simp [startsUnit, h] at hs
  | pastPower ht =>
    have := (Token.isSymbol_iff.mp ht).1
    simp_all [peek_cons]
  | pastOperator ht =>
    have := kind_of_joins ht
    simp_all [peek_cons]

/-! ## Powers of numerals with a unit behind them -/

/-- A text that is a unit expression behind a blank, with the unit it stands for. -/
structure UnitText (r : Registry α) (text : String) (unit : UnitExpr) (u : PhysUnit α) : Prop where
  /-- All tokens of the text belong to the unit expression. -/
  reads : ∃ ts stop, Token.scan 0 0 true text.toList = .ok ts ∧ startsUnit ts = true ∧
    unitExpr ts = .ok (unit, [stop]) ∧ stop.kind = .stop
  /-- The registry knows its names. -/
  eval : r.eval unit = .ok u

/-- The metre is a unit text of the standard registry. -/
theorem exists_unitText_metre :
    ∃ v, UnitText (Registry.standard : Registry Float) "m" (.name "m") v := by
  obtain ⟨v, hv⟩ := exists_eq_ok
    (by decide +kernel : ((Registry.standard : Registry Float).resolve "m").isOk = true)
  exact ⟨v, ⟨_, ⟨.stop, "", 1, false⟩, rfl, rfl, rfl, rfl⟩, hv⟩

/-- A unit at the end attaches itself to what it binds. -/
theorem climb_unit {r : Registry α} {power : Nat} {left : Expr α} {unit : UnitExpr} {u : PhysUnit α}
    {ts : List Token} {stop : Token} (hs : startsUnit ts = true)
    (hu : unitExpr ts = .ok (unit, [stop])) (hstop : stop.kind = .stop) (hr : r.eval unit = .ok u)
    (hpower : power ≤ unitPower) :
    Derives r (.climb power left (unary (.attach u unit.label) left)) ts [stop] :=
  .attach hs hpower hu hr (.settled (settled_stop hstop))

/-- The tokens of a numeral with a unit behind it, wherever it stands. -/
theorem scan_numeral_unit {r : Registry α} {b u : String} {y : Expr α} {unit : UnitExpr}
    {v : PhysUnit α} (hb : Numeral b y) (hu : UnitText r u unit v) (column : Nat) (spaced : Bool) :
    ∃ ts stop, startsUnit ts = true ∧ unitExpr ts = .ok (unit, [stop]) ∧ stop.kind = .stop ∧
      Token.scan 0 column spaced (b.toList ++ ' ' :: u.toList) =
        .ok (⟨.number, b, column, spaced⟩ :: ts) := by
  have hblank : Text.isBlank ' ' = true := by decide
  obtain ⟨ts, stop, hscan, hs, hunit, hstop⟩ := hu.reads
  have hshift := Token.scan_shift (column + b.toList.length + 1) hscan
  rw [Nat.zero_add] at hshift
  refine ⟨ts.map (Token.shift (column + b.toList.length + 1)),
    stop.shift (column + b.toList.length + 1), ?_,
    (unnoticed_shift _).unitExpr_map hunit, hstop, ?_⟩
  · rw [(unnoticed_shift _).startsUnit_map, hs]
  · rw [Token.scan_numeral hb.isNumeral (Token.endsNumber_blank _), Token.scan_blank hblank, hshift,
      ok_bind, String.ofList_toList]

section Powers

variable {r : Registry α} {a b u : String} {x y : Expr α} {unit : UnitExpr} {v : PhysUnit α}

/-- Behind an exponent without a sign, the unit is attached to the power. -/
theorem ofText_power (ha : Numeral a x) (hb : Numeral b y) (hu : UnitText r u unit v) :
    ofText r (a ++ " ^ " ++ (b ++ " " ++ u)) =
      .ok (unary (.attach v unit.label) (binary .pow x y)) := by
  obtain ⟨ts, stop, hs, hunit, hstop, hscan⟩ :=
    scan_numeral_unit hb hu (a.toList.length + 3) true
  have htokens := scan_power (b ++ " " ++ u) ha.isNumeral.lexeme (by simpa using hscan)
  refine ofText_eq_ok.mpr ⟨_, htokens, ofTokens_eq_ok.mpr ⟨[stop], ?_, hstop⟩⟩
  have hexponent : Derives r (.expression 7 y)
      (⟨.number, b, a.toList.length + 3, true⟩ :: ts) ts :=
    .expression (hb.operand _ _ _) (.settled (settled_of_lt hs (by decide)))
  exact .expression (ha.operand _ _ _)
    (climb_power rfl hexponent (climb_unit hs hunit hstop hu.eval (Nat.zero_le _)))

/-- Behind an exponent with a sign, the unit is attached to the numeral behind the sign. -/
theorem ofText_power_sign (sign : Char) {z : Expr α} (hmem : sign ∈ Token.symbols)
    (hstar : sign ≠ '*')
    (hoperand : ∀ {t : Token} {ts rest : List Token}, t.isSymbol (String.singleton sign) = true →
      Derives r (.expression signPower (unary (.attach v unit.label) y)) ts rest →
      Derives r (.operand z) (t :: ts) rest)
    (ha : Numeral a x) (hb : Numeral b y) (hu : UnitText r u unit v) :
    ofText r (a ++ " ^ " ++ (String.singleton sign ++ b ++ " " ++ u)) = .ok (binary .pow x z) := by
  obtain ⟨ts, stop, hs, hunit, hstop, hscan⟩ :=
    scan_numeral_unit hb hu (a.toList.length + 4) false
  have hsign : Token.scan 0 (a.toList.length + 3) true
      (String.singleton sign ++ b ++ " " ++ u).toList =
        .ok (⟨.symbol, String.singleton sign, a.toList.length + 3, true⟩ ::
          ⟨.number, b, a.toList.length + 4, false⟩ :: ts) := by
    have htext : (String.singleton sign ++ b ++ " " ++ u).toList =
        sign :: (b.toList ++ ' ' :: u.toList) := by
      simp [String.toList_append]
    rw [htext, Token.scan_symbol hmem hstar, hscan, ok_bind]
  refine ofText_eq_ok.mpr
    ⟨_, scan_power _ ha.isNumeral.lexeme hsign, ofTokens_eq_ok.mpr ⟨[stop], ?_, hstop⟩⟩
  have hsigned : Derives r (.expression signPower (unary (.attach v unit.label) y))
      (⟨.number, b, a.toList.length + 4, false⟩ :: ts) [stop] :=
    .expression (hb.operand _ _ _) (climb_unit hs hunit hstop hu.eval (by decide))
  have hexponent : Derives r (.expression 7 z)
      (⟨.symbol, String.singleton sign, a.toList.length + 3, true⟩ ::
        ⟨.number, b, a.toList.length + 4, false⟩ :: ts) [stop] :=
    .expression (hoperand (by simp [Token.isSymbol]) hsigned) (.settled (settled_stop hstop))
  exact .expression (ha.operand _ _ _)
    (climb_power rfl hexponent (.settled (settled_stop hstop)))

end Powers

/-! ## Where the units go -/

/-- In a text without parentheses, the walk over its tokens finds the units in exponents. -/
theorem unitInExponent_iff_of_ofText {r : Registry α} {text : String} {e : Expr α}
    (hparen : '(' ∉ text.toList) (h : ofText r text = .ok e) :
    UnitInExponent e ↔
      ∃ ts, Token.ofText text = .ok ts ∧ UnitUnderSign (.value false false) ts := by
  obtain ⟨ts, hscan, hread⟩ := ofText_eq_ok.mp h
  obtain ⟨rest, hd, hstop⟩ := ofTokens_eq_ok.mp hread
  have hno : ∀ t ∈ ts, t.isSymbol "(" = false := by
    intro t ht
    rw [Bool.eq_false_iff]
    intro hs
    obtain ⟨hk, htext⟩ := Token.isSymbol_iff.mp hs
    rcases Token.symbol_mem_of_scan hscan ht hk with hpow | ⟨c, hc, hsymbol⟩
    · simp [htext] at hpow
    · rw [htext] at hsymbol
      obtain rfl : '(' = c := by simpa using congrArg String.toList hsymbol
      exact hparen hc
  have hcount := counts_of_derives hd hno false false (fun _ ↦ rfl) (fun _ ↦ rfl)
  simp only [Bool.or_false, marked_false, not_unitUnderSign_stop hstop, or_false] at hcount
  simp [hscan, hcount]

/-- **Units are in an exponent exactly if a sign is.**  In the tree of a text without parentheses,
a unit is attached inside the right operand of a power if and only if, in the text, it stands in a
factor that has a `^` with a sign directly behind it.  So `a ^ b u` attaches the unit to the power,
while `a ^ -b u` and `a ^ +b u` attach it to the numeral behind the sign. -/
theorem unitInExponent_iff_unitUnderSign (r : Registry α) :
    (∀ (text : String) (e : Expr α), '(' ∉ text.toList → ofText r text = .ok e →
      (UnitInExponent e ↔
        ∃ ts, Token.ofText text = .ok ts ∧ UnitUnderSign (.value false false) ts)) ∧
    (∀ (a b u : String) (x y : Expr α) (unit : UnitExpr) (v : PhysUnit α),
      Numeral a x → Numeral b y → UnitText r u unit v →
      ofText r (a ++ " ^ " ++ (b ++ " " ++ u)) =
          .ok (unary (.attach v unit.label) (binary .pow x y)) ∧
        ofText r (a ++ " ^ " ++ ("-" ++ b ++ " " ++ u)) =
          .ok (binary .pow x (unary .neg (unary (.attach v unit.label) y))) ∧
        ofText r (a ++ " ^ " ++ ("+" ++ b ++ " " ++ u)) =
          .ok (binary .pow x (unary (.attach v unit.label) y))) := by
  refine ⟨fun text e hparen h ↦ unitInExponent_iff_of_ofText hparen h, ?_⟩
  intro a b u x y unit v ha hb hu
  have hminus := ofText_power_sign (r := r) '-' (by decide) (by decide) .minus ha hb hu
  have hplus := ofText_power_sign (r := r) '+' (by decide) (by decide) .plus ha hb hu
  exact ⟨ofText_power ha hb hu, hminus, hplus⟩

/-- `2 ^ -3 m` is `2 ^ (-(3 m))`, with the metre in the exponent. -/
theorem unitInExponent_two_pow_minus_three_metres :
    ∃ (x y : Expr Float) (v : PhysUnit Float), Numeral "2" x ∧ Numeral "3" y ∧
      UnitText Registry.standard "m" (.name "m") v ∧ '(' ∉ "2 ^ -3 m".toList ∧
      ofText Registry.standard "2 ^ -3 m" =
        .ok (binary .pow x (unary .neg (unary (.attach v "m") y))) ∧
      ∃ ts, Token.ofText "2 ^ -3 m" = .ok ts ∧ UnitUnderSign (.value false false) ts := by
  obtain ⟨x, ha⟩ : ∃ x : Expr Float, Numeral "2" x :=
    exists_numeral (c := '2') rfl (by decide) (by decide +kernel)
  obtain ⟨y, hb⟩ : ∃ y : Expr Float, Numeral "3" y :=
    exists_numeral (c := '3') rfl (by decide) (by decide +kernel)
  obtain ⟨v, hv⟩ := exists_unitText_metre
  have hparen : '(' ∉ "2 ^ -3 m".toList := by decide
  have hmain := unitInExponent_iff_unitUnderSign (Registry.standard : Registry Float)
  have hread := (hmain.2 "2" "3" "m" x y (.name "m") v ha hb hv).2.1
  refine ⟨x, y, v, ha, hb, hv, hparen, hread, (hmain.1 "2 ^ -3 m" _ hparen hread).mp ?_⟩
  exact unitInExponent_pow.mpr (.inr (holdsUnit_neg.mpr (holdsUnit_attach v "m" y)))

/-- So not every text without parentheses keeps its units out of its exponents. -/
theorem exists_unitInExponent_without_parentheses :
    ∃ (text : String) (e : Expr Float), text = "2 ^ -3 m" ∧ '(' ∉ text.toList ∧
      ofText Registry.standard text = .ok e ∧ UnitInExponent e := by
  obtain ⟨x, ha⟩ : ∃ x : Expr Float, Numeral "2" x :=
    exists_numeral (c := '2') rfl (by decide) (by decide +kernel)
  obtain ⟨y, hb⟩ : ∃ y : Expr Float, Numeral "3" y :=
    exists_numeral (c := '3') rfl (by decide) (by decide +kernel)
  obtain ⟨v, hv⟩ := exists_unitText_metre
  have hread := ofText_power_sign '-' (by decide) (by decide) .minus ha hb hv
  exact ⟨"2 ^ -3 m", _, rfl, by decide, hread,
    unitInExponent_pow.mpr (.inr (holdsUnit_neg.mpr (holdsUnit_attach v "m" y)))⟩

end Expr
end Mensura
