import Mensura.Proofs.Expr.Derivation
import Mensura.Proofs.Expr.Lexeme

/-!
# Numerals in expressions

A numeral is a text that is read as one number token.  The literal it is read as depends on the
text alone, and the texts of natural numbers are numerals (`writes_toString`).  With or without a
sign, a numeral is an operand wherever nothing binds tighter than the sign (`OperandText`).
-/

set_option autoImplicit false

namespace Mensura
namespace Expr

variable {α : Type} [Scalar α]

/-! ## Numerals and their literals -/

/-- A number token is read as a plain literal. -/
theorem exists_literal_of_literalOf {t : Token} {e : Expr α} (h : literalOf t = .ok e) :
    ∃ q, e = literal q := by
  rw [literalOf] at h
  dsimp only at h
  split at h
  · exact ⟨_, by simpa using h.symm⟩
  · exact absurd h fail_ne_ok

/-- A text that is a numeral, with the literal it is read as. -/
structure Numeral (text : String) (e : Expr α) : Prop where
  /-- The text is one number. -/
  isNumeral : Token.IsNumeral text.toList
  /-- The number can be held. -/
  literal : literalOf ⟨.number, text, 0, false⟩ = .ok e

/-- Only errors speak of the column of a numeral. -/
theorem Numeral.literalOf {text : String} {e : Expr α} (h : Numeral text e) (column : Nat)
    (spaced : Bool) : literalOf ⟨.number, text, column, spaced⟩ = .ok e := by
  have hl := h.literal
  rw [Expr.literalOf] at hl ⊢
  dsimp only at hl ⊢
  split at hl
  · exact hl
  · exact absurd hl fail_ne_ok

/-- A digit is a numeral. -/
theorem exists_numeral {text : String} {c : Char} (htext : text = String.singleton c)
    (hc : Text.isDigit c = true)
    (h : (literalOf ⟨.number, text, 0, false⟩ : Result (Expr α)).isOk = true) :
    ∃ e : Expr α, Numeral text e := by
  subst htext
  obtain ⟨e, h⟩ := exists_eq_ok h
  refine ⟨e, ⟨?_, ?_⟩, h⟩
  · simp [Token.startsNumber, hc]
  · simp [Token.numberLength, Token.digitRun, hc, Token.fractionLength, Token.exponentLength]

theorem Numeral.operand {r : Registry α} {text : String} {e : Expr α} (h : Numeral text e)
    (column : Nat) (spaced : Bool) (rest : List Token) :
    Derives r (.operand e) (⟨.number, text, column, spaced⟩ :: rest) rest :=
  .number rfl (h.literalOf column spaced)

theorem settled_stop {power : Nat} {stop : Token} (h : stop.kind = .stop) :
    Settled α power [stop] :=
  ⟨by simp [startsUnit, h], by simp [peek_cons, InfixOperator.ofToken?, Token.isSymbol, h]⟩

/-! ## Operands -/

/-- A text that is read as an operand, whatever stands behind it, provided that continues no number
and binds less tightly than a sign. -/
def OperandText (r : Registry α) (text : String) (e : Expr α) : Prop :=
  ∀ column spaced, ∃ ts : List Token,
    (∀ rest tokens, Token.endsNumber rest = true →
      Token.scan 0 (column + text.toList.length) false rest = .ok tokens →
      Token.scan 0 column spaced (text.toList ++ rest) = .ok (ts ++ tokens)) ∧
    ∀ rest, Settled α signPower rest → Derives r (.operand e) (ts ++ rest) rest

theorem Numeral.operandText {r : Registry α} {text : String} {e : Expr α} (h : Numeral text e) :
    OperandText r text e := by
  intro column spaced
  refine ⟨[⟨.number, text, column, spaced⟩], ?_, fun rest _ ↦ h.operand _ _ _⟩
  intro rest tokens hrest htokens
  rw [Token.scan_numeral h.isNumeral hrest, htokens, ok_bind, String.ofList_toList]
  rfl

/-- A sign is read with the operand behind it. -/
theorem OperandText.neg {r : Registry α} {text : String} {e : Expr α} (h : OperandText r text e) :
    OperandText r ("-" ++ text) (unary .neg e) := by
  intro column spaced
  obtain ⟨ts, hscan, hread⟩ := h (column + 1) false
  have htext : ("-" ++ text).toList = '-' :: text.toList := by simp [String.toList_append]
  refine ⟨⟨.symbol, "-", column, spaced⟩ :: ts, ?_, ?_⟩
  · intro rest tokens hrest htokens
    rw [htext, List.length_cons, ← Nat.add_assoc, Nat.add_right_comm] at htokens
    rw [htext, List.cons_append, Token.scan_symbol (by decide) (by decide),
      hscan rest tokens hrest htokens, ok_bind]
    rfl
  · exact fun rest hrest ↦ .minus rfl (.expression (hread rest hrest) (.settled hrest))

/-! ## Powers -/

theorem not_startsUnit_of_symbol {t : Token} (h : t.kind = .symbol) (ts : List Token) :
    startsUnit (t :: ts) = false := by
  simp [startsUnit, h]

theorem ofToken?_power {t : Token} (h : t.isSymbol "^" = true) :
    InfixOperator.ofToken? t = some (⟨8, 7, .pow⟩ : InfixOperator α) := by
  obtain ⟨hk, ht⟩ := Token.isSymbol_iff.mp h
  simp [InfixOperator.ofToken?, Token.isSymbol, hk, ht]

/-- An exponent, and nothing behind it. -/
theorem climb_power {r : Registry α} {left right e : Expr α} {t : Token} {ts mid rest : List Token}
    (ht : t.isSymbol "^" = true) (hright : Derives r (.expression 7 right) ts mid)
    (h : Derives r (.climb 0 (binary .pow left right) e) mid rest) :
    Derives r (.climb 0 left e) (t :: ts) rest :=
  .operator (not_startsUnit_of_symbol (Token.isSymbol_iff.mp ht).1 ts) (ofToken?_power ht)
    (Nat.zero_le _) hright h

/-- The tokens of something to the power of something else. -/
theorem scan_power {kind : TokenKind} {a : String} (rest : String) (ha : Token.Lexeme kind a)
    {ts : List Token} (h : Token.scan 0 (a.toList.length + 3) true rest.toList = .ok ts) :
    Token.ofText (a ++ " ^ " ++ rest) =
      .ok (⟨kind, a, 0, false⟩ :: ⟨.symbol, "^", a.toList.length + 1, true⟩ :: ts) := by
  have hblank : Text.isBlank ' ' = true := by decide
  have htext : (a ++ " ^ " ++ rest).toList = a.toList ++ ' ' :: '^' :: ' ' :: rest.toList := by
    simp [String.toList_append]
  rw [Token.ofText, htext, Token.scan_lexeme ha.ne_nil ha.head_not_blank (ha.next?_blank _),
    Token.scan_blank hblank, Token.scan_symbol (by decide) (by decide), Token.scan_blank hblank,
    Nat.zero_add, h, ok_bind, ok_bind]
  rfl

/-! ## Whole numbers -/

/-- A decimal text of a whole number: digits, perhaps with a point or a power of ten. -/
structure Writes (text : String) (n : Nat) : Prop where
  /-- The text is one number. -/
  isNumeral : Token.IsNumeral text.toList
  /-- Its significand and its exponent make the number. -/
  value : ∃ m e, decimalOf? text.toList = some (m, e) ∧ (m * 10 ^ e : Rat) = n

/-- A decimal text of an integer: a minus sign may stand before a whole number. -/
inductive WritesInt : String → Int → Prop
  | plain {text : String} {n : Nat} : Writes text n → WritesInt text n
  | minus {text : String} {n : Nat} : Writes text n → WritesInt ("-" ++ text) (-n)

theorem decimalValue?_of_isDigit {c : Char} (h : c.isDigit = true) :
    Text.decimalValue? c = some (c.toNat - '0'.toNat) := by
  have hrange : 48 ≤ c.toNat ∧ c.toNat ≤ 57 :=
    Char.isDigit_iff_toNat.mp h
  have hascii : c.toNat < 128 := by omega
  have hzero : '0'.toNat = 48 := rfl
  simp [Text.decimalValue?, hascii, hrange, hzero]

theorem isDigit_of_isDigit {c : Char} (h : c.isDigit = true) : Text.isDigit c = true := by
  simp [Text.isDigit, Text.isDecimalDigit, decimalValue?_of_isDigit h]

theorem readDigits_eq {cs : List Char} (h : ∀ c ∈ cs, c.isDigit = true) (start : Nat) :
    Text.readDigits start cs = some (Nat.ofDigitChars 10 cs start) := by
  induction cs generalizing start with
  | nil => simp [Text.readDigits]
  | cons c cs ih =>
    rw [Text.readDigits, decimalValue?_of_isDigit (h c (by simp)), Option.bind_eq_bind,
      Option.bind_some, ih (fun d hd ↦ h d (by simp [hd])), Nat.ofDigitChars_cons]

theorem takeWhile_digits {cs : List Char} (h : ∀ c ∈ cs, c.isDigit = true) :
    cs.takeWhile Text.isDigit = cs := by
  rw [← List.append_nil cs, List.takeWhile_append_of_pos fun c hc ↦ isDigit_of_isDigit (h c hc)]
  rfl

/-- The text of a natural number writes it. -/
theorem writes_toString (n : Nat) : Writes (toString n) n := by
  have hlist : (toString n).toList = Nat.toDigits 10 n := Nat.toList_repr
  have hdigits : ∀ c ∈ Nat.toDigits 10 n, c.isDigit = true := fun c hc ↦
    Nat.isDigit_of_mem_toDigits (by decide) (by decide) hc
  obtain ⟨d, ds, hcons⟩ := List.exists_cons_of_ne_nil (Nat.toDigits_ne_nil (n := n) (b := 10))
  refine ⟨⟨?_, ?_⟩, n, 0, ?_, by simp⟩
  · rw [hlist, hcons]
    simp [Token.startsNumber, isDigit_of_isDigit (hdigits d (by simp [hcons]))]
  · rw [hlist, Token.numberLength, Token.digitRun, takeWhile_digits hdigits]
    simp [Token.fractionLength, Token.exponentLength]
  · have hvalue : Text.natOfDigits? (Nat.toDigits 10 n) = some n := by
      rw [Text.natOfDigits?, if_neg (by simp [hcons]), readDigits_eq hdigits,
        Nat.ofDigitChars_ten_toDigits]
    rw [hlist, decimalOf?, takeWhile_digits hdigits]
    simp [Token.fractionLength, hvalue]

end Expr
end Mensura
