import Mensura.Expr.Parser
import Mensura.Proofs.Expr.Lexeme

/-!
# Reading units behind values

What the reader of units does with tokens, in the two ways in which everything that reads
expressions depends on it: it leaves over the end of what it was given (`unitExpr_suffix`), shorter
by a name at least, and where the tokens stand in their text does not matter to it
(`Unnoticed.unitExpr_map`).
-/

set_option autoImplicit false

namespace Mensura

theorem Token.isSymbol_iff {t : Token} {s : String} :
    t.isSymbol s = true ↔ t.kind = .symbol ∧ t.text = s := by
  simp [Token.isSymbol]

namespace Expr

variable {α : Type} [Scalar α]

/-! ## Tokens taken by a unit -/

theorem peek_cons (t : Token) (ts : List Token) : peek (t :: ts) = t := rfl

/-- Only a token that is there can be a symbol. -/
theorem exists_cons_of_isSymbol {ts : List Token} {s : String}
    (h : (peek ts).isSymbol s = true) : ∃ t rest, ts = t :: rest ∧ t.isSymbol s = true := by
  cases ts with
  | nil => simp [peek, Token.isSymbol] at h
  | cons t rest => exact ⟨t, rest, rfl, h⟩

theorem exists_cons_of_opensCall {ts : List Token} (h : opensCall ts = true) :
    ∃ t rest, ts = t :: rest ∧ t.isSymbol "(" = true := by
  simp only [opensCall, Bool.and_eq_true] at h
  exact exists_cons_of_isSymbol h.1

theorem opensCall_of_symbol {t : Token} {s : String} (h : t.isSymbol s = true) (hs : s ≠ "(")
    (rest : List Token) : opensCall (t :: rest) = false := by
  simp [opensCall, peek_cons, Token.isSymbol, (Token.isSymbol_iff.mp h).2, hs]

theorem drop_one_suffix (ts : List Token) : ts.drop 1 <:+ ts :=
  List.drop_suffix 1 ts

theorem expect_eq_ok {s : String} {ts rest : List Token} :
    expect s ts = .ok rest ↔ (peek ts).isSymbol s = true ∧ rest = ts.drop 1 := by
  rw [expect]
  by_cases h : (peek ts).isSymbol s = true
  · simp [h, eq_comm]
  · simp [h]

theorem expect_suffix {s : String} {ts rest : List Token} (h : expect s ts = .ok rest) :
    rest <:+ ts :=
  (expect_eq_ok.mp h).2 ▸ drop_one_suffix ts

theorem signedInteger_suffix {ts rest : List Token} {n : Int}
    (h : signedInteger ts = .ok (n, rest)) : rest <:+ ts := by
  unfold signedInteger at h
  dsimp only at h
  generalize hb : (if (peek ts).isSymbol "-" || (peek ts).isSymbol "+" then ts.drop 1 else ts) =
    body at h
  have hbody : body <:+ ts := by
    rw [← hb]
    split
    · exact drop_one_suffix ts
    · exact List.suffix_refl _
  split at h
  · obtain ⟨m, -, h⟩ := bind_eq_ok.mp h
    simp only [pure_eq_ok, Except.ok.injEq, Prod.mk.injEq] at h
    rw [← h.2]
    exact (drop_one_suffix _).trans hbody
  · exact absurd h fail_ne_ok

theorem unitExponent_suffix {ts rest : List Token} {n : Int}
    (h : unitExponent ts = .ok (n, rest)) : rest <:+ ts := by
  rw [unitExponent] at h
  split at h
  · obtain ⟨⟨m, mid⟩, hm, h⟩ := bind_eq_ok.mp h
    obtain ⟨after, ha, h⟩ := bind_eq_ok.mp h
    simp only [pure_eq_ok, Except.ok.injEq, Prod.mk.injEq] at h
    rw [← h.2]
    exact (expect_suffix ha).trans ((signedInteger_suffix hm).trans (drop_one_suffix ts))
  · exact signedInteger_suffix h

/-- A unit name takes at least itself. -/
theorem unitTerm_suffix {ts rest : List Token} {u : UnitExpr} (h : unitTerm ts = .ok (u, rest)) :
    rest <:+ ts.drop 1 := by
  rw [unitTerm] at h
  dsimp only at h
  split at h
  · obtain ⟨⟨n, mid⟩, hn, h⟩ := bind_eq_ok.mp h
    simp only [pure_eq_ok, Except.ok.injEq, Prod.mk.injEq] at h
    rw [← h.2]
    exact (unitExponent_suffix hn).trans (drop_one_suffix _)
  · simp only [pure_eq_ok, Except.ok.injEq, Prod.mk.injEq] at h
    exact h.2 ▸ List.suffix_refl _

theorem moreUnits_suffix {fuel : Nat} {left u : UnitExpr} {ts rest : List Token}
    (h : moreUnits fuel left ts = .ok (u, rest)) : rest <:+ ts := by
  induction fuel generalizing left ts with
  | zero =>
    simp only [moreUnits, Except.ok.injEq, Prod.mk.injEq] at h
    exact h.2 ▸ List.suffix_refl _
  | succ fuel ih =>
    rw [moreUnits] at h
    split at h
    · obtain ⟨⟨right, mid⟩, hr, h⟩ := bind_eq_ok.mp h
      exact (ih h).trans ((unitTerm_suffix hr).trans (drop_one_suffix _))
    split at h
    · obtain ⟨⟨right, mid⟩, hr, h⟩ := bind_eq_ok.mp h
      exact (ih h).trans
        ((unitTerm_suffix hr).trans ((drop_one_suffix _).trans (drop_one_suffix _)))
    split at h
    · obtain ⟨⟨right, mid⟩, hr, h⟩ := bind_eq_ok.mp h
      exact (ih h).trans
        ((unitTerm_suffix hr).trans ((drop_one_suffix _).trans (drop_one_suffix _)))
    · simp only [pure_eq_ok, Except.ok.injEq, Prod.mk.injEq] at h
      exact h.2 ▸ List.suffix_refl _

/-- A unit expression takes at least its first name. -/
theorem unitExpr_suffix {ts rest : List Token} {u : UnitExpr} (h : unitExpr ts = .ok (u, rest)) :
    rest <:+ ts.drop 1 := by
  rw [unitExpr] at h
  obtain ⟨⟨first, mid⟩, hf, h⟩ := bind_eq_ok.mp h
  exact (moreUnits_suffix h).trans (unitTerm_suffix hf)

theorem startsUnit_ne_nil {ts : List Token} (h : startsUnit ts = true) : ts ≠ [] := by
  rintro rfl
  simp [startsUnit] at h

theorem unitExpr_length_lt {ts rest : List Token} {u : UnitExpr} (hs : startsUnit ts = true)
    (h : unitExpr ts = .ok (u, rest)) : rest.length < ts.length := by
  have hne := List.length_pos_iff.mpr (startsUnit_ne_nil hs)
  have hle := (unitExpr_suffix h).length_le
  rw [List.length_drop] at hle
  omega

/-! ## What the reader does not notice -/

/-- A change of tokens that no reader notices: of where they stand, and of whether a blank stands
before the stop. -/
structure Unnoticed (g : Token → Token) : Prop where
  kind : ∀ t, (g t).kind = t.kind
  text : ∀ t, (g t).text = t.text
  spaced : ∀ t, t.kind ≠ .stop → (g t).spaced = t.spaced

theorem unnoticed_move (f : Nat → Nat) : Unnoticed (Token.move f) :=
  ⟨fun _ ↦ rfl, fun _ ↦ rfl, fun _ _ ↦ rfl⟩

theorem unnoticed_shift (k : Nat) : Unnoticed (Token.shift k) :=
  unnoticed_move (· + k)

namespace Unnoticed

variable {g : Token → Token} (hg : Unnoticed g)

include hg

theorem isSymbol (t : Token) (s : String) : (g t).isSymbol s = t.isSymbol s := by
  rw [Token.isSymbol, hg.kind, hg.text, Token.isSymbol]

theorem peek_kind (ts : List Token) : (peek (ts.map g)).kind = (peek ts).kind := by
  cases ts with
  | nil => rfl
  | cons t ts => exact hg.kind t

theorem peek_text (ts : List Token) : (peek (ts.map g)).text = (peek ts).text := by
  cases ts with
  | nil => rfl
  | cons t ts => exact hg.text t

theorem peek_isSymbol (ts : List Token) (s : String) :
    (peek (ts.map g)).isSymbol s = (peek ts).isSymbol s := by
  rw [Token.isSymbol, hg.peek_kind, hg.peek_text, Token.isSymbol]

/-- A symbol is noticed to be spaced. -/
theorem peek_joined (ts : List Token) (s : String) :
    ((peek (ts.map g)).isSymbol s && !(peek (ts.map g)).spaced) =
      ((peek ts).isSymbol s && !(peek ts).spaced) := by
  rw [hg.peek_isSymbol]
  cases ts with
  | nil => rfl
  | cons t ts =>
    by_cases hs : t.isSymbol s = true
    · have hkind : t.kind ≠ .stop := by simp [(Token.isSymbol_iff.mp hs).1]
      rw [List.map_cons, peek_cons, peek_cons, hg.spaced t hkind]
    · rw [peek_cons, Bool.eq_false_iff.mpr hs, Bool.false_and, Bool.false_and]

theorem opensCall_map (ts : List Token) : opensCall (ts.map g) = opensCall ts :=
  hg.peek_joined ts "("

theorem startsUnit_map (ts : List Token) : startsUnit (ts.map g) = startsUnit ts := by
  cases ts with
  | nil => rfl
  | cons t ts => rw [List.map_cons, startsUnit, hg.opensCall_map, hg.kind, hg.text, startsUnit]

theorem continuesUnit_map (s : String) (ts : List Token) :
    continuesUnit s (ts.map g) = continuesUnit s ts := by
  rw [continuesUnit, hg.peek_joined, ← List.map_drop, hg.startsUnit_map, continuesUnit]

theorem expect_map {s : String} {ts rest : List Token} (h : expect s ts = .ok rest) :
    expect s (ts.map g) = .ok (rest.map g) := by
  rw [expect_eq_ok] at h ⊢
  exact ⟨(hg.peek_isSymbol ts s).trans h.1, by rw [h.2, List.map_drop]⟩

theorem signedInteger_map {ts rest : List Token} {n : Int}
    (h : signedInteger ts = .ok (n, rest)) :
    signedInteger (ts.map g) = .ok (n, rest.map g) := by
  unfold signedInteger at h ⊢
  simp only [hg.peek_isSymbol]
  dsimp only at h
  generalize hb : (if (peek ts).isSymbol "-" || (peek ts).isSymbol "+" then ts.drop 1 else ts) =
    body at h
  have hmap : (if (peek ts).isSymbol "-" || (peek ts).isSymbol "+" then
      (ts.map g).drop 1 else ts.map g) = body.map g := by
    rw [← hb, apply_ite (List.map g), List.map_drop]
  rw [hmap, hg.peek_kind, hg.peek_text, ← List.map_drop]
  split at h
  · next hnumber =>
    obtain ⟨m, hm, h⟩ := bind_eq_ok.mp h
    obtain ⟨rfl, rfl⟩ : _ ∧ body.drop 1 = rest := by
      simpa only [pure_eq_ok, Except.ok.injEq, Prod.mk.injEq] using h
    rw [if_pos hnumber, hm, ok_bind]
    rfl
  · exact absurd h fail_ne_ok

theorem unitExponent_map {ts rest : List Token} {n : Int}
    (h : unitExponent ts = .ok (n, rest)) :
    unitExponent (ts.map g) = .ok (n, rest.map g) := by
  simp only [unitExponent, hg.peek_isSymbol, ← List.map_drop] at h ⊢
  split at h
  · next hparen =>
    obtain ⟨⟨m, mid⟩, hm, h⟩ := bind_eq_ok.mp h
    obtain ⟨after, hafter, h⟩ := bind_eq_ok.mp h
    obtain ⟨rfl, rfl⟩ : m = n ∧ after = rest := by simpa using h
    rw [if_pos hparen, hg.signedInteger_map hm, ok_bind, hg.expect_map hafter]
    rfl
  · next hparen =>
    rw [if_neg hparen]
    exact hg.signedInteger_map h

theorem unitTerm_map {ts rest : List Token} {u : UnitExpr} (h : unitTerm ts = .ok (u, rest)) :
    unitTerm (ts.map g) = .ok (u, rest.map g) := by
  simp only [unitTerm, hg.peek_text, ← List.map_drop, hg.peek_isSymbol] at h ⊢
  split at h
  · next hpower =>
    obtain ⟨⟨n, mid⟩, hn, h⟩ := bind_eq_ok.mp h
    obtain ⟨rfl, rfl⟩ : _ ∧ mid = rest := by simpa using h
    rw [if_pos hpower, hg.unitExponent_map hn]
    rfl
  · next hpower =>
    obtain ⟨rfl, rfl⟩ : _ ∧ ts.drop 1 = rest := by
      simpa only [pure_eq_ok, Except.ok.injEq, Prod.mk.injEq] using h
    rw [if_neg hpower]
    rfl

theorem moreUnits_map {fuel : Nat} {left u : UnitExpr} {ts rest : List Token}
    (h : moreUnits fuel left ts = .ok (u, rest)) :
    moreUnits fuel left (ts.map g) = .ok (u, rest.map g) := by
  induction fuel generalizing left ts with
  | zero =>
    obtain ⟨rfl, rfl⟩ := by simpa [moreUnits] using h
    rfl
  | succ fuel ih =>
    simp only [moreUnits, hg.startsUnit_map, hg.continuesUnit_map, ← List.map_drop] at h ⊢
    split at h
    · next hs =>
      obtain ⟨⟨right, mid⟩, hr, h⟩ := bind_eq_ok.mp h
      rw [if_pos hs, hg.unitTerm_map hr, ok_bind]
      exact ih h
    next hs =>
    rw [if_neg hs]
    split at h
    · next hmul =>
      obtain ⟨⟨right, mid⟩, hr, h⟩ := bind_eq_ok.mp h
      rw [if_pos hmul, hg.unitTerm_map hr, ok_bind]
      exact ih h
    next hmul =>
    rw [if_neg hmul]
    split at h
    · next hdiv =>
      obtain ⟨⟨right, mid⟩, hr, h⟩ := bind_eq_ok.mp h
      rw [if_pos hdiv, hg.unitTerm_map hr, ok_bind]
      exact ih h
    · next hdiv =>
      obtain ⟨rfl, rfl⟩ := by simpa using h
      rw [if_neg hdiv]
      rfl

/-- **A unit is read alike** from tokens that differ in nothing that is noticed. -/
theorem unitExpr_map {ts rest : List Token} {u : UnitExpr} (h : unitExpr ts = .ok (u, rest)) :
    unitExpr (ts.map g) = .ok (u, rest.map g) := by
  simp only [unitExpr, List.length_map] at h ⊢
  obtain ⟨⟨first, mid⟩, hf, h⟩ := bind_eq_ok.mp h
  rw [hg.unitTerm_map hf, ok_bind]
  exact hg.moreUnits_map h

end Unnoticed

end Expr
end Mensura
