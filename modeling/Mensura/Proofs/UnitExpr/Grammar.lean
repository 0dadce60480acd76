import Mensura.Proofs.UnitExpr.Lexeme

/-!
# The grammar of unit expressions

Derivations of the grammar

    expression := term (['*' | '/'] term)*
    term       := factor [('^' | '**') exponent]
    factor     := NAME | '(' expression ')'
    exponent   := INTEGER | '(' INTEGER ')'

as trees, one constructor for each way to use a rule.  `lexemes` are the leaves of a tree from left
to right, and `plan` is the unit expression it stands for: products and quotients are joined to what
stands on their left, and a term beside a term multiplies.

* `Expression.lexemes_injective`: no row of lexemes has two derivations.
-/

set_option autoImplicit false

namespace Mensura
namespace UnitExpr

/-- An operator as a lexeme. -/
def symbol (text : String) : Lexeme :=
  ⟨.operator, text⟩

namespace Grammar

/-! ## Derivations -/

/-- The two ways to write a power. -/
inductive PowerSign
  | caret | stars
  deriving DecidableEq, Repr

def PowerSign.text : PowerSign → String
  | caret => "^"
  | stars => "**"

/-- An exponent: an integer, perhaps in parentheses. -/
structure Exponent where
  integer : String
  inParentheses : Bool
  deriving DecidableEq, Repr

def Exponent.lexemes (x : Exponent) : List Lexeme :=
  if x.inParentheses then [symbol "(", ⟨.integer, x.integer⟩, symbol ")"]
  else [⟨.integer, x.integer⟩]

/-- What stands behind a factor that is raised to a power. -/
structure Power where
  sign : PowerSign
  exponent : Exponent
  deriving DecidableEq, Repr

/-- The lexemes behind a factor. -/
def powerLexemes : Option Power → List Lexeme
  | none => []
  | some p => symbol p.sign.text :: p.exponent.lexemes

/-- What stands between two terms. -/
inductive Link
  | beside | times | per
  deriving DecidableEq, Repr

def Link.lexemes : Link → List Lexeme
  | beside => []
  | times => [symbol "*"]
  | per => [symbol "/"]

/-- Two terms joined. -/
def Link.join : Link → UnitExpr → UnitExpr → UnitExpr
  | beside => .mul
  | times => .mul
  | per => .div

mutual

/-- A factor, and perhaps a power of it. -/
inductive Term
  | of (base : Factor) (power : Option Power)

/-- A name, or an expression in parentheses. -/
inductive Factor
  | name (text : String)
  | group (inner : Expression)

/-- A term, and the terms behind it. -/
inductive Expression
  | of (first : Term) (more : More)

/-- The terms behind a term. -/
inductive More
  | done
  | next (link : Link) (term : Term) (more : More)

end

mutual

/-- The lexemes of a term. -/
def Term.lexemes : Term → List Lexeme
  | .of base power => base.lexemes ++ powerLexemes power

/-- The lexemes of a factor. -/
def Factor.lexemes : Factor → List Lexeme
  | .name text => [⟨.name, text⟩]
  | .group inner => symbol "(" :: (inner.lexemes ++ [symbol ")"])

/-- The lexemes of an expression. -/
def Expression.lexemes : Expression → List Lexeme
  | .of first more => first.lexemes ++ more.lexemes

/-- The lexemes of the terms behind a term. -/
def More.lexemes : More → List Lexeme
  | .done => []
  | .next link term more => link.lexemes ++ (term.lexemes ++ more.lexemes)

end

/-! ## Plans -/

/-- A plan raised to a power. -/
def poweredPlan (base : UnitExpr) : Option Power → Except Fault UnitExpr
  | none => .ok base
  | some p => do return .pow base (← Text.integer p.exponent.integer)

mutual

/-- The unit expression of a term.  Integers are read in the order in which they stand; one that is
too long is a fault. -/
def Term.plan : Term → Except Fault UnitExpr
  | .of base power => do poweredPlan (← base.plan) power

/-- The unit expression of a factor. -/
def Factor.plan : Factor → Except Fault UnitExpr
  | .name text => .ok (.name text)
  | .group inner => inner.plan

/-- The unit expression of an expression. -/
def Expression.plan : Expression → Except Fault UnitExpr
  | .of first more => do more.planAfter (← first.plan)

/-- A unit expression with the terms behind it joined to it. -/
def More.planAfter : More → UnitExpr → Except Fault UnitExpr
  | .done, left => .ok left
  | .next link term more, left => do more.planAfter (link.join left (← term.plan))

end

/-! ## What may follow -/

/-- No power stands in front. -/
structure EndsFactor (s : List Lexeme) : Prop where
  caret : s.head? ≠ some (symbol "^")
  stars : s.head? ≠ some (symbol "**")

/-- Nothing stands in front that goes on with an expression. -/
structure EndsExpression (s : List Lexeme) : Prop extends EndsFactor s where
  times : s.head? ≠ some (symbol "*")
  per : s.head? ≠ some (symbol "/")
  group : s.head? ≠ some (symbol "(")
  name : ∀ text, s.head? ≠ some ⟨.name, text⟩

theorem endsExpression_nil : EndsExpression [] :=
  ⟨⟨by simp, by simp⟩, by simp, by simp, by simp, by simp⟩

theorem endsExpression_closing (s : List Lexeme) : EndsExpression (symbol ")" :: s) :=
  ⟨⟨by simp [symbol], by simp [symbol]⟩, by simp [symbol], by simp [symbol], by simp [symbol],
    by simp [symbol]⟩

/-- A factor starts with its name or with a parenthesis. -/
theorem Factor.exists_cons (d : Factor) :
    (∃ text rest, d.lexemes = ⟨.name, text⟩ :: rest) ∨ ∃ rest, d.lexemes = symbol "(" :: rest := by
  cases d with
  | name text => exact .inl ⟨text, [], by rw [lexemes]⟩
  | group inner => exact .inr ⟨inner.lexemes ++ [symbol ")"], by rw [lexemes]⟩

/-- So does a term. -/
theorem Term.exists_cons (d : Term) :
    (∃ text rest, d.lexemes = ⟨.name, text⟩ :: rest) ∨ ∃ rest, d.lexemes = symbol "(" :: rest := by
  cases d with
  | of base power =>
    rw [lexemes]
    rcases base.exists_cons with ⟨text, rest, h⟩ | ⟨rest, h⟩
    · exact .inl ⟨text, rest ++ powerLexemes power, by rw [h, List.cons_append]⟩
    · exact .inr ⟨rest ++ powerLexemes power, by rw [h, List.cons_append]⟩

/-- A term ends where another one may follow. -/
theorem More.endsFactor (d : More) {s : List Lexeme} (hs : EndsExpression s) :
    EndsFactor (d.lexemes ++ s) := by
  cases d with
  | done => exact hs.toEndsFactor
  | next link term more =>
    rw [lexemes]
    cases link with
    | beside =>
      rcases term.exists_cons with ⟨text, rest, h⟩ | ⟨rest, h⟩ <;>
        exact ⟨by simp [Link.lexemes, h, symbol], by simp [Link.lexemes, h, symbol]⟩
    | times | per => exact ⟨by simp [Link.lexemes, symbol], by simp [Link.lexemes, symbol]⟩

/-! ## Unique derivations -/

section Read

variable {s t : List Lexeme}

theorem Exponent.read {x y : Exponent} (h : x.lexemes ++ s = y.lexemes ++ t) : x = y ∧ s = t := by
  obtain ⟨n, inX⟩ := x
  obtain ⟨m, inY⟩ := y
  cases inX <;> cases inY <;> simp_all [lexemes, symbol]

theorem power_read {p q : Option Power} (hs : EndsFactor s) (ht : EndsFactor t)
    (h : powerLexemes p ++ s = powerLexemes q ++ t) : p = q ∧ s = t := by
  have hsign : ∀ {s : List Lexeme} (p : Power), EndsFactor s →
      s ≠ symbol p.sign.text :: (p.exponent.lexemes ++ t) := by
    rintro s ⟨sign, x⟩ hs rfl
    cases sign with
    | caret => exact hs.caret rfl
    | stars => exact hs.stars rfl
  cases p with
  | none =>
    cases q with
    | none => exact ⟨rfl, h⟩
    | some q => exact absurd h (hsign q hs)
  | some p =>
    cases q with
    | none =>
      rw [powerLexemes, List.nil_append] at h
      obtain ⟨sign, x⟩ := p
      cases sign with
      | caret => exact absurd (congrArg List.head? h.symm) ht.caret
      | stars => exact absurd (congrArg List.head? h.symm) ht.stars
    | some q =>
      obtain ⟨signP, x⟩ := p
      obtain ⟨signQ, y⟩ := q
      simp only [powerLexemes, List.cons_append, List.cons.injEq] at h
      obtain ⟨rfl, rfl⟩ := Exponent.read h.2
      cases signP <;> cases signQ <;> simp_all [symbol, PowerSign.text]

/-- Behind a link stands a term, and the end of an expression does not look like that. -/
theorem More.ne_of_ends (link : Link) (term : Term) (more : More) (hs : EndsExpression s) :
    (More.next link term more).lexemes ++ t ≠ s := by
  rintro rfl
  rw [lexemes] at hs
  cases link with
  | beside =>
    rcases term.exists_cons with ⟨text, rest, h⟩ | ⟨rest, h⟩
    · exact hs.name text (by simp [Link.lexemes, h])
    · exact hs.group (by simp [Link.lexemes, h])
  | times => exact hs.times (by simp [Link.lexemes])
  | per => exact hs.per (by simp [Link.lexemes])

theorem link_read {a b : Link} {d e : Term} (h : a.lexemes ++ (d.lexemes ++ s) =
    b.lexemes ++ (e.lexemes ++ t)) : a = b ∧ d.lexemes ++ s = e.lexemes ++ t := by
  rcases d.exists_cons with ⟨text, rest, hd⟩ | ⟨rest, hd⟩ <;>
    rcases e.exists_cons with ⟨text', rest', he⟩ | ⟨rest', he⟩ <;>
    cases a <;> cases b <;> simp_all [Link.lexemes, symbol]

mutual

theorem Term.read : ∀ (d e : Term) {s t : List Lexeme}, EndsFactor s → EndsFactor t →
    d.lexemes ++ s = e.lexemes ++ t → d = e ∧ s = t
  | .of base power, .of base' power', s, t, hs, ht, h => by
    simp only [Term.lexemes, List.append_assoc] at h
    obtain ⟨rfl, hpower⟩ := base.read base' h
    obtain ⟨rfl, hrest⟩ := power_read hs ht hpower
    exact ⟨rfl, hrest⟩

theorem Factor.read : ∀ (d e : Factor) {s t : List Lexeme},
    d.lexemes ++ s = e.lexemes ++ t → d = e ∧ s = t
  | .name a, .name b, s, t, h => by simpa [Factor.lexemes] using h
  | .name a, .group inner, s, t, h => by simp [Factor.lexemes, symbol] at h
  | .group inner, .name b, s, t, h => by simp [Factor.lexemes, symbol] at h
  | .group inner, .group inner', s, t, h => by
    simp only [Factor.lexemes, List.cons_append, List.append_assoc, List.cons.injEq, true_and,
      List.nil_append] at h
    obtain ⟨rfl, hrest⟩ :=
      inner.read inner' (endsExpression_closing s) (endsExpression_closing t) h
    exact ⟨rfl, (List.cons.inj hrest).2⟩

theorem Expression.read : ∀ (d e : Expression) {s t : List Lexeme}, EndsExpression s →
    EndsExpression t → d.lexemes ++ s = e.lexemes ++ t → d = e ∧ s = t
  | .of first more, .of first' more', s, t, hs, ht, h => by
    simp only [Expression.lexemes, List.append_assoc] at h
    obtain ⟨rfl, hmore⟩ := first.read first' (more.endsFactor hs) (more'.endsFactor ht) h
    obtain ⟨rfl, hrest⟩ := more.read more' hs ht hmore
    exact ⟨rfl, hrest⟩

theorem More.read : ∀ (d e : More) {s t : List Lexeme}, EndsExpression s → EndsExpression t →
    d.lexemes ++ s = e.lexemes ++ t → d = e ∧ s = t
  | .done, .done, s, t, _, _, h => ⟨rfl, h⟩
  | .done, .next link term more, s, t, hs, _, h => absurd h.symm (More.ne_of_ends link term more hs)
  | .next link term more, .done, s, t, _, ht, h => absurd h (More.ne_of_ends link term more ht)
  | .next link term more, .next link' term' more', s, t, hs, ht, h => by
    simp only [More.lexemes, List.append_assoc] at h
    obtain ⟨rfl, hterm⟩ := link_read h
    obtain ⟨rfl, hmore⟩ := term.read term' (more.endsFactor hs) (more'.endsFactor ht) hterm
    obtain ⟨rfl, hrest⟩ := more.read more' hs ht hmore
    exact ⟨rfl, hrest⟩

end

end Read

/-- **No row of lexemes has two derivations.** -/
theorem Expression.lexemes_injective {d e : Expression} (h : d.lexemes = e.lexemes) : d = e :=
  (d.read e endsExpression_nil endsExpression_nil (by rw [h])).1

end Grammar
end UnitExpr
end Mensura
