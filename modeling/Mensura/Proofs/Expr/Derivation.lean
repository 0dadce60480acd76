import Mensura.Proofs.Expr.UnitReading

/-!
# Derivations of expressions

The reader of expressions runs on fuel and hands the tokens it leaves over from step to step.
This file says what it reads without either: `Derives r part ts rest` holds when the tokens `ts`
begin with a `Part` — an expression of some power, an operand, what joins an expression already
read, a list of arguments — and `rest` is what follows it.

* `derives_of_readAs`: what the reader answers is derived, provided the fuel suffices.  Three units
  of fuel for each token do, because of any three steps in a row one takes a token.
* `Derives.readAs`: what is derived is what the reader answers, under the same condition.
* `ofTokens_eq_ok`: so a list of tokens is read as `e` exactly if `e` is derived from all of it.

Everything about the shape of trees is then an induction over derivations, with one case for each
way to go on.
-/

set_option autoImplicit false

namespace Mensura
namespace Expr

variable {α : Type} [Scalar α]

/-! ## Derivations -/

/-- What a stretch of tokens is read as. -/
inductive Part (α : Type) [Scalar α]
  /-- An expression whose operators bind at least as tightly as `power`. -/
  | expression (power : Nat) (e : Expr α)
  /-- A value with its signs. -/
  | operand (e : Expr α)
  /-- What joins `left`, which has been read already, into `e`. -/
  | climb (power : Nat) (left e : Expr α)
  /-- Arguments between commas. -/
  | arguments (es : List (Expr α))

/-- Nothing in front of the tokens binds an expression before them at a given power. -/
structure Settled (α : Type) [Scalar α] (power : Nat) (ts : List Token) : Prop where
  /-- A unit would bind less tightly. -/
  unit : startsUnit ts = true → unitPower < power
  /-- So would an operator. -/
  operator : startsUnit ts = false →
    ∀ op : InfixOperator α, InfixOperator.ofToken? (peek ts) = some op → op.left < power

/-- The tokens `ts` begin with a part, and `rest` follows it. -/
inductive Derives (r : Registry α) : Part α → (ts rest : List Token) → Prop
  | expression {power : Nat} {first e : Expr α} {ts mid rest : List Token} :
    Derives r (.operand first) ts mid → Derives r (.climb power first e) mid rest →
    Derives r (.expression power e) ts rest
  | number {t : Token} {e : Expr α} {rest : List Token} :
    t.kind = .number → literalOf t = .ok e → Derives r (.operand e) (t :: rest) rest
  | ident {t : Token} {rest : List Token} :
    t.kind = .name → opensCall rest = false → Derives r (.operand (ident t.text)) (t :: rest) rest
  | emptyCall {t o c : Token} {rest : List Token} :
    t.kind = .name → opensCall (o :: c :: rest) = true → c.isSymbol ")" = true →
    Derives r (.operand (call t.text [])) (t :: o :: c :: rest) rest
  | call {t o c : Token} {es : List (Expr α)} {ts rest : List Token} :
    t.kind = .name → opensCall (o :: ts) = true → (peek ts).isSymbol ")" = false →
    Derives r (.arguments es) ts (c :: rest) → c.isSymbol ")" = true →
    Derives r (.operand (call t.text es)) (t :: o :: ts) rest
  | paren {o c : Token} {e : Expr α} {ts rest : List Token} :
    o.isSymbol "(" = true → Derives r (.expression 0 e) ts (c :: rest) → c.isSymbol ")" = true →
    Derives r (.operand e) (o :: ts) rest
  | minus {t : Token} {e : Expr α} {ts rest : List Token} :
    t.isSymbol "-" = true → Derives r (.expression signPower e) ts rest →
    Derives r (.operand (unary .neg e)) (t :: ts) rest
  | plus {t : Token} {e : Expr α} {ts rest : List Token} :
    t.isSymbol "+" = true → Derives r (.expression signPower e) ts rest →
    Derives r (.operand e) (t :: ts) rest
  | attach {power : Nat} {left e : Expr α} {unit : UnitExpr} {u : PhysUnit α}
      {ts mid rest : List Token} :
    startsUnit ts = true → power ≤ unitPower → unitExpr ts = .ok (unit, mid) →
    r.eval unit = .ok u → Derives r (.climb power (unary (.attach u unit.label) left) e) mid rest →
    Derives r (.climb power left e) ts rest
  | operator {power : Nat} {left right e : Expr α} {op : InfixOperator α} {t : Token}
      {ts mid rest : List Token} :
    startsUnit (t :: ts) = false → InfixOperator.ofToken? t = some op → power ≤ op.left →
    Derives r (.expression op.right right) ts mid →
    Derives r (.climb power (binary op.op left right) e) mid rest →
    Derives r (.climb power left e) (t :: ts) rest
  | settled {power : Nat} {left : Expr α} {ts : List Token} :
    Settled α power ts → Derives r (.climb power left left) ts ts
  | lastArgument {e : Expr α} {ts rest : List Token} :
    Derives r (.expression 0 e) ts rest → (peek rest).isSymbol "," = false →
    Derives r (.arguments [e]) ts rest
  | moreArguments {e : Expr α} {es : List (Expr α)} {c : Token} {ts mid rest : List Token} :
    Derives r (.expression 0 e) ts (c :: mid) → c.isSymbol "," = true →
    Derives r (.arguments es) mid rest → Derives r (.arguments (e :: es)) ts rest

/-- Fuel that suffices for reading a part of some tokens. -/
def Part.fuel (part : Part α) (ts : List Token) : Nat :=
  match part with
  | .expression .. => 3 * ts.length + 2
  | .operand _ => 3 * ts.length + 1
  | .climb .. => 3 * ts.length + 1
  | .arguments _ => 3 * ts.length + 3

/-- The reader answers a part, run on some fuel. -/
def Part.ReadAs (r : Registry α) (fuel : Nat) (part : Part α) (ts rest : List Token) : Prop :=
  match part with
  | .expression power e => Expr.expression r fuel power ts = .ok (e, rest)
  | .operand e => Expr.operand r fuel ts = .ok (e, rest)
  | .climb power left e => Expr.climb r fuel power left ts = .ok (e, rest)
  | .arguments es => Expr.arguments r fuel ts = .ok (es, rest)

variable {r : Registry α}

/-- What a part leaves over is the end of what it was read from. -/
theorem Derives.suffix {part : Part α} {ts rest : List Token} (h : Derives r part ts rest) :
    rest <:+ ts := by
  induction h with
  | expression _ _ ih₁ ih₂ => exact ih₂.trans ih₁
  | number | ident => exact List.suffix_cons _ _
  | emptyCall => exact ⟨[_, _, _], rfl⟩
  | call _ _ _ _ _ ih =>
    exact (List.suffix_cons _ _).trans (ih.trans ⟨[_, _], rfl⟩)
  | paren _ _ _ ih => exact (List.suffix_cons _ _).trans (ih.trans (List.suffix_cons _ _))
  | minus _ _ ih | plus _ _ ih => exact ih.trans (List.suffix_cons _ _)
  | attach _ _ hu _ _ ih => exact ih.trans ((unitExpr_suffix hu).trans (drop_one_suffix _))
  | operator _ _ _ _ _ ih₁ ih₂ => exact ih₂.trans (ih₁.trans (List.suffix_cons _ _))
  | settled => exact List.suffix_refl _
  | lastArgument _ _ ih => exact ih
  | moreArguments _ _ _ ih₁ ih₂ => exact ih₂.trans ((List.suffix_cons _ _).trans ih₁)

/-- An operand takes at least one token, and so does an expression. -/
theorem Derives.length_lt_of_operand {e : Expr α} {ts rest : List Token}
    (h : Derives r (.operand e) ts rest) : rest.length < ts.length := by
  cases h with
  | number | ident => simp
  | emptyCall => simp only [List.length_cons]; omega
  | call _ _ _ h | paren _ h | minus _ h | plus _ h =>
    have := h.suffix.length_le
    simp only [List.length_cons] at this ⊢
    omega

theorem Derives.length_lt_of_expression {power : Nat} {e : Expr α} {ts rest : List Token}
    (h : Derives r (.expression power e) ts rest) : rest.length < ts.length := by
  cases h with
  | expression h₁ h₂ =>
    have := h₂.suffix.length_le
    have := h₁.length_lt_of_operand
    omega

/-- No part is read without fuel. -/
theorem Part.exists_succ_of_fuel_le {part : Part α} {ts : List Token} {fuel : Nat}
    (h : part.fuel ts ≤ fuel) : ∃ n, fuel = n + 1 ∧ part.fuel ts ≤ n + 1 := by
  have hpos : 0 < part.fuel ts := by cases part <;> simp [Part.fuel]
  exact ⟨fuel - 1, by omega, by omega⟩

/-! ## The reader answers what is derived -/

/-- What is derived is what the reader answers, run on enough fuel. -/
theorem Derives.readAs {part : Part α} {ts rest : List Token} (h : Derives r part ts rest) :
    ∀ fuel : Nat, part.fuel ts ≤ fuel → part.ReadAs r fuel ts rest := by
  induction h with
  | expression h₁ _ ih₁ ih₂ =>
    intro fuel hf
    obtain ⟨fuel, rfl, hf⟩ := Part.exists_succ_of_fuel_le hf
    have hlen := h₁.length_lt_of_operand
    simp only [Part.fuel] at hf ih₁ ih₂
    have e₁ := ih₁ fuel (by omega)
    have e₂ := ih₂ fuel (by omega)
    simp only [Part.ReadAs] at e₁ e₂ ⊢
    simp [Expr.expression, e₁, e₂]
  | number hk hl =>
    intro fuel hf
    obtain ⟨fuel, rfl, hf⟩ := Part.exists_succ_of_fuel_le hf
    simp [Part.ReadAs, Expr.operand, peek_cons, hk, hl]
  | ident hk ho =>
    intro fuel hf
    obtain ⟨fuel, rfl, hf⟩ := Part.exists_succ_of_fuel_le hf
    simp [Part.ReadAs, Expr.operand, peek_cons, hk, ho]
  | emptyCall hk ho hc =>
    intro fuel hf
    obtain ⟨fuel, rfl, hf⟩ := Part.exists_succ_of_fuel_le hf
    simp [Part.ReadAs, Expr.operand, peek_cons, hk, ho, hc]
  | call hk ho hc h hclose ih =>
    intro fuel hf
    obtain ⟨fuel, rfl, hf⟩ := Part.exists_succ_of_fuel_le hf
    simp only [Part.fuel, List.length_cons] at hf ih
    have e := ih fuel (by omega)
    simp only [Part.ReadAs] at e ⊢
    simp [Expr.operand, peek_cons, hk, ho, hc, e, expect, hclose]
  | paren ho h hclose ih =>
    intro fuel hf
    obtain ⟨fuel, rfl, hf⟩ := Part.exists_succ_of_fuel_le hf
    simp only [Part.fuel, List.length_cons] at hf ih
    have e := ih fuel (by omega)
    obtain ⟨hk, ht⟩ := Token.isSymbol_iff.mp ho
    simp only [Part.ReadAs] at e ⊢
    simp [Expr.operand, peek_cons, hk, ho, e, expect, hclose]
  | minus ho h ih =>
    intro fuel hf
    obtain ⟨fuel, rfl, hf⟩ := Part.exists_succ_of_fuel_le hf
    simp only [Part.fuel, List.length_cons] at hf ih
    have e := ih fuel (by omega)
    obtain ⟨hk, ht⟩ := Token.isSymbol_iff.mp ho
    simp only [Part.ReadAs] at e ⊢
    simp [Expr.operand, peek_cons, Token.isSymbol, hk, ht, e]
  | plus ho h ih =>
    intro fuel hf
    obtain ⟨fuel, rfl, hf⟩ := Part.exists_succ_of_fuel_le hf
    simp only [Part.fuel, List.length_cons] at hf ih
    have e := ih fuel (by omega)
    obtain ⟨hk, ht⟩ := Token.isSymbol_iff.mp ho
    simp only [Part.ReadAs] at e ⊢
    simp [Expr.operand, peek_cons, Token.isSymbol, hk, ht, e]
  | attach hs hp hu hr h ih =>
    intro fuel hf
    obtain ⟨fuel, rfl, hf⟩ := Part.exists_succ_of_fuel_le hf
    have hlen := unitExpr_length_lt hs hu
    simp only [Part.fuel] at hf ih
    have e := ih fuel (by omega)
    simp only [Part.ReadAs] at e ⊢
    simp [Expr.climb, hs, Nat.not_lt.mpr hp, hu, hr, e]
  | operator hs ho hp h₁ _ ih₁ ih₂ =>
    intro fuel hf
    obtain ⟨fuel, rfl, hf⟩ := Part.exists_succ_of_fuel_le hf
    have hlen := h₁.suffix.length_le
    simp only [Part.fuel, List.length_cons] at hf ih₁ ih₂
    have e₁ := ih₁ fuel (by omega)
    have e₂ := ih₂ fuel (by omega)
    simp only [Part.ReadAs] at e₁ e₂ ⊢
    simp [Expr.climb, hs, peek_cons, ho, Nat.not_lt.mpr hp, e₁, e₂]
  | @settled power left ts hs =>
    intro fuel hf
    obtain ⟨fuel, rfl, hf⟩ := Part.exists_succ_of_fuel_le hf
    simp only [Part.ReadAs, Expr.climb]
    cases hu : startsUnit ts with
    | true => simp [hs.unit hu]
    | false =>
      cases ho : (InfixOperator.ofToken? (peek ts) : Option (InfixOperator α)) with
      | none => simp
      | some op => simp [hs.operator hu op ho]
  | lastArgument _ hc ih =>
    intro fuel hf
    obtain ⟨fuel, rfl, hf⟩ := Part.exists_succ_of_fuel_le hf
    simp only [Part.fuel] at hf ih
    have e := ih fuel (by omega)
    simp only [Part.ReadAs] at e ⊢
    simp [Expr.arguments, e, hc]
  | moreArguments h₁ hc _ ih₁ ih₂ =>
    intro fuel hf
    obtain ⟨fuel, rfl, hf⟩ := Part.exists_succ_of_fuel_le hf
    have hlen := h₁.suffix.length_le
    simp only [Part.fuel, List.length_cons] at hf hlen ih₁ ih₂
    have e₁ := ih₁ fuel (by omega)
    have e₂ := ih₂ fuel (by omega)
    simp only [Part.ReadAs] at e₁ e₂ ⊢
    simp [Expr.arguments, e₁, peek_cons, hc, e₂]

/-! ## What the reader answers is derived -/

/-- Whatever stops the climb, nothing in front binds tightly enough. -/
theorem settled_of_lt {power : Nat} {ts : List Token} (hu : startsUnit ts = true)
    (h : unitPower < power) : Settled α power ts :=
  ⟨fun _ ↦ h, fun hn ↦ absurd hu (by simp [hn])⟩

theorem settled_of_operator {power : Nat} {ts : List Token} (hu : startsUnit ts = false)
    (h : ∀ op : InfixOperator α, InfixOperator.ofToken? (peek ts) = some op → op.left < power) :
    Settled α power ts :=
  ⟨fun hs ↦ absurd hs (by simp [hu]), fun _ ↦ h⟩

/-- An operator stands in a token, and there is one. -/
theorem exists_cons_of_ofToken? {ts : List Token} {op : InfixOperator α}
    (h : InfixOperator.ofToken? (peek ts) = some op) : ∃ t rest, ts = t :: rest := by
  cases ts with
  | nil => simp [peek, InfixOperator.ofToken?, Token.isSymbol] at h
  | cons t rest => exact ⟨t, rest, rfl⟩

/-- The operand of one unit of fuel more. -/
theorem derives_operand {fuel : Nat}
    (ih : ∀ (part : Part α) {ts rest : List Token}, part.fuel ts ≤ fuel →
      part.ReadAs r fuel ts rest → Derives r part ts rest)
    {e : Expr α} {ts rest : List Token} (hf : 3 * ts.length ≤ fuel)
    (h : Expr.operand r (fuel + 1) ts = .ok (e, rest)) : Derives r (.operand e) ts rest := by
  cases ts with
  | nil => simp [Expr.operand, peek, Token.isSymbol, noValue] at h
  | cons t ts =>
    simp only [Expr.operand, peek_cons, List.drop_succ_cons, List.drop_zero] at h
    simp only [List.length_cons] at hf
    split at h
    · next hk =>
      obtain ⟨lit, hl, h⟩ := bind_eq_ok.mp h
      obtain ⟨rfl, rfl⟩ := by simpa using h
      exact .number hk hl
    split at h
    · next hk =>
      split at h
      · next ho =>
        obtain ⟨o, ts, rfl, -⟩ := exists_cons_of_opensCall ho
        simp only [List.length_cons, List.drop_succ_cons, List.drop_zero] at hf h
        split at h
        · next hc =>
          obtain ⟨c, ts, rfl, hc⟩ := exists_cons_of_isSymbol hc
          obtain ⟨rfl, rfl⟩ := by simpa using h
          exact .emptyCall hk ho hc
        · next hc =>
          obtain ⟨⟨args, mid⟩, h₁, h⟩ := bind_eq_ok.mp h
          obtain ⟨after, h₂, h⟩ := bind_eq_ok.mp h
          obtain ⟨hclose, rfl⟩ := expect_eq_ok.mp h₂
          obtain ⟨c, mid, rfl, hclose⟩ := exists_cons_of_isSymbol hclose
          obtain ⟨rfl, rfl⟩ := by simpa using h
          exact .call hk ho (by simpa using hc)
            (ih (.arguments args) (by simp only [Part.fuel]; omega) h₁) hclose
      · next ho =>
        obtain ⟨rfl, rfl⟩ := by simpa using h
        exact .ident hk (by simpa using ho)
    split at h
    · next ho =>
      obtain ⟨⟨inner, mid⟩, h₁, h⟩ := bind_eq_ok.mp h
      obtain ⟨after, h₂, h⟩ := bind_eq_ok.mp h
      obtain ⟨hclose, rfl⟩ := expect_eq_ok.mp h₂
      obtain ⟨c, mid, rfl, hclose⟩ := exists_cons_of_isSymbol hclose
      obtain ⟨rfl, rfl⟩ := by simpa using h
      exact .paren ho (ih (.expression 0 inner) (by simp only [Part.fuel]; omega) h₁) hclose
    split at h
    · next ho =>
      obtain ⟨⟨inner, mid⟩, h₁, h⟩ := bind_eq_ok.mp h
      obtain ⟨rfl, rfl⟩ := by simpa using h
      exact .minus ho
        (ih (.expression signPower inner) (by simp only [Part.fuel]; omega) h₁)
    split at h
    · next ho =>
      exact .plus ho (ih (.expression signPower e) (by simp only [Part.fuel]; omega) h)
    · exact absurd h fail_ne_ok

/-- One unit of fuel more: what the reader answers with it is derived, if all it answers with the
fuel before is. -/
theorem derives_step {fuel : Nat}
    (ih : ∀ (part : Part α) {ts rest : List Token}, part.fuel ts ≤ fuel →
      part.ReadAs r fuel ts rest → Derives r part ts rest)
    {part : Part α} {ts rest : List Token} (hf : part.fuel ts ≤ fuel + 1)
    (h : part.ReadAs r (fuel + 1) ts rest) : Derives r part ts rest := by
  cases part with
  | expression power e =>
    simp only [Part.ReadAs, Expr.expression] at h
    simp only [Part.fuel] at hf
    obtain ⟨⟨first, mid⟩, h₁, h₂⟩ := bind_eq_ok.mp h
    have d₁ := ih (.operand first) (by simp only [Part.fuel]; omega) h₁
    have hlen := d₁.length_lt_of_operand
    exact .expression d₁ (ih (.climb power first e) (by simp only [Part.fuel]; omega) h₂)
  | operand e =>
    exact derives_operand ih (by simp only [Part.fuel] at hf; omega) h
  | climb power left e =>
    simp only [Part.ReadAs, Expr.climb] at h
    simp only [Part.fuel] at hf
    cases hu : startsUnit ts with
    | true =>
      rw [if_pos hu] at h
      split at h
      · next hlt =>
        obtain ⟨rfl, rfl⟩ := by simpa using h
        exact .settled (settled_of_lt hu hlt)
      · next hle =>
        obtain ⟨⟨unit, mid⟩, h₁, h⟩ := bind_eq_ok.mp h
        obtain ⟨u, h₂, h₃⟩ := bind_eq_ok.mp h
        have hlen := unitExpr_length_lt hu h₁
        exact .attach hu (by omega) h₁ h₂
          (ih (.climb ..) (by simp only [Part.fuel]; omega) h₃)
    | false =>
      rw [if_neg (by simp [hu])] at h
      split at h
      · next hnone =>
        obtain ⟨rfl, rfl⟩ := by simpa using h
        exact .settled (settled_of_operator hu (by simp [hnone]))
      · next op hop =>
        split at h
        · next hlt =>
          obtain ⟨rfl, rfl⟩ := by simpa using h
          exact .settled (settled_of_operator hu (by simp [hop, hlt]))
        · next hle =>
          obtain ⟨⟨right, mid⟩, h₁, h₂⟩ := bind_eq_ok.mp h
          obtain ⟨t, ts, rfl⟩ := exists_cons_of_ofToken? hop
          simp only [List.length_cons, List.drop_one, List.tail_cons] at hf h₁
          have d₁ := ih (.expression op.right right) (by simp only [Part.fuel]; omega) h₁
          have hlen := d₁.suffix.length_le
          exact .operator hu hop (by omega) d₁
            (ih (.climb ..) (by simp only [Part.fuel]; omega) h₂)
  | arguments es =>
    simp only [Part.ReadAs, Expr.arguments] at h
    simp only [Part.fuel] at hf
    obtain ⟨⟨first, mid⟩, h₁, h⟩ := bind_eq_ok.mp h
    have d₁ := ih (.expression 0 first) (by simp only [Part.fuel]; omega) h₁
    have hlen := d₁.length_lt_of_expression
    dsimp only at h
    split at h
    · next hc =>
      obtain ⟨c, mid, rfl, hc⟩ := exists_cons_of_isSymbol hc
      obtain ⟨⟨more, after⟩, h₂, h⟩ := bind_eq_ok.mp h
      obtain ⟨rfl, rfl⟩ := by simpa using h
      simp only [List.length_cons] at hlen
      exact .moreArguments d₁ hc
        (ih (.arguments more) (by simp only [Part.fuel]; omega) h₂)
    · next hc =>
      obtain ⟨rfl, rfl⟩ := by simpa using h
      exact .lastArgument d₁ (by simpa using hc)

/-- What the reader answers, run on enough fuel, is derived. -/
theorem derives_of_readAs {fuel : Nat} (part : Part α) {ts rest : List Token}
    (hf : part.fuel ts ≤ fuel) (h : part.ReadAs r fuel ts rest) : Derives r part ts rest := by
  induction fuel generalizing part ts rest with
  | zero =>
    obtain ⟨n, hn, -⟩ := Part.exists_succ_of_fuel_le hf
    omega
  | succ fuel ih => exact derives_step ih hf h

/-- **The reader derives.**  On enough fuel it answers exactly what is derived. -/
theorem readAs_iff_derives {fuel : Nat} (part : Part α) {ts rest : List Token}
    (hf : part.fuel ts ≤ fuel) : part.ReadAs r fuel ts rest ↔ Derives r part ts rest :=
  ⟨derives_of_readAs part hf, fun h ↦ h.readAs fuel hf⟩

/-- A list of tokens is read as an expression if that is derived from all of it but a stop. -/
theorem ofTokens_eq_ok {ts : List Token} {e : Expr α} :
    ofTokens r ts = .ok e ↔
      ∃ rest, Derives r (.expression 0 e) ts rest ∧ (peek rest).kind = .stop := by
  have hiff : ∀ e rest, expression r (fuelFor ts) 0 ts = .ok (e, rest) ↔
      Derives r (.expression 0 e) ts rest := fun e rest ↦
    readAs_iff_derives (.expression 0 e) (by simp only [Part.fuel, fuelFor]; omega)
  rw [ofTokens, bind_eq_ok]
  constructor
  · rintro ⟨⟨e', rest⟩, h₁, h⟩
    dsimp only at h
    split at h
    · next hstop =>
      obtain rfl : e' = e := by simpa using h
      exact ⟨rest, (hiff _ _).mp h₁, hstop⟩
    · exact absurd h fail_ne_ok
  · rintro ⟨rest, h, hstop⟩
    exact ⟨(e, rest), (hiff _ _).mpr h, by simp [hstop]⟩

/-- A text is read as an expression if its tokens are. -/
theorem ofText_eq_ok {text : String} {e : Expr α} :
    ofText r text = .ok e ↔ ∃ ts, Token.ofText text = .ok ts ∧ ofTokens r ts = .ok e := by
  rw [ofText]
  cases Token.ofText text with
  | ok ts => simp
  | error err => simp

end Expr
end Mensura
