import Mensura.Proofs.Expr.Numeral
import Mensura.Proofs.Expr.Reference
import Mensura.Proofs.Quantity.Exponent

/-!
# Exponents as they are written

What becomes of `x ^ 3`, `x ^ -3` and `x ^ (-2/3)`, from the text to the dimension of the result.

A written exponent reaches the power as a quantity, so the power sees what comes back when its
mantissa is multiplied out.  `pow_written` says exactly when that is the number written: for a whole
number if `rebuiltWhole` gives it back, for a fraction if `rebuiltFraction` gives the double nearest
to it.  In these cases the power has the written multiple of the dimension.  In all others an
integer is not taken as itself, and a fraction is refused.
-/

set_option autoImplicit false

namespace Mensura
namespace Expr

open Binary64

/-! ## Reading -/

section Reading

variable {α : Type} [Scalar α] {r : Registry α} {a u w : String} {y z : Expr α}

theorem derives_name {column : Nat} {spaced : Bool} {t : Token} (ht : t.isSymbol "^" = true)
    (ts : List Token) :
    Derives r (.operand (ident a)) (⟨.name, a, column, spaced⟩ :: t :: ts) (t :: ts) := by
  have hcall : opensCall (t :: ts) = false := by
    obtain ⟨-, htext⟩ := Token.isSymbol_iff.mp ht
    simp [opensCall, peek, Token.isSymbol, htext]
  exact Derives.ident (t := ⟨.name, a, column, spaced⟩) rfl hcall

/-- A name to the power of an exponent that ends the text. -/
theorem ofText_name_power (ha : Token.Lexeme .name a) {ts : List Token} {stop : Token}
    (hscan : Token.scan 0 (a.toList.length + 3) true w.toList = .ok ts)
    (hread : Derives r (.expression 7 z) ts [stop]) (hstop : stop.kind = .stop) :
    ofText r (a ++ " ^ " ++ w) = .ok (binary .pow (ident a) z) := by
  refine ofText_eq_ok.mpr ⟨_, scan_power w ha hscan, ofTokens_eq_ok.mpr ⟨[stop], ?_, hstop⟩⟩
  exact .expression (derives_name rfl _) (climb_power rfl hread (.settled (settled_stop hstop)))

/-- A name to the power of an operand. -/
theorem ofText_power_operand (ha : Token.Lexeme .name a) (hw : OperandText r w z) :
    ofText r (a ++ " ^ " ++ w) = .ok (binary .pow (ident a) z) := by
  obtain ⟨ts, hscan, hread⟩ := hw (a.toList.length + 3) true
  have hend := hscan [] _ rfl rfl
  rw [List.append_nil] at hend
  have hsettled : ∀ power, Settled α power
      [⟨.stop, "", a.toList.length + 3 + w.toList.length, false⟩] := fun _ ↦ settled_stop rfl
  exact ofText_name_power ha hend (.expression (hread _ (hsettled _)) (.settled (hsettled _))) rfl

theorem settled_close {power : Nat} {t : Token} (ht : t.isSymbol ")" = true) (ts : List Token) :
    Settled α power (t :: ts) := by
  obtain ⟨hk, htext⟩ := Token.isSymbol_iff.mp ht
  exact ⟨by simp [startsUnit, hk],
    by simp [peek_cons, InfixOperator.ofToken?, Token.isSymbol, hk, htext]⟩

theorem ofToken?_divide {t : Token} (ht : t.isSymbol "/" = true) :
    InfixOperator.ofToken? t = some (⟨3, 4, .div⟩ : InfixOperator α) := by
  obtain ⟨hk, htext⟩ := Token.isSymbol_iff.mp ht
  simp [InfixOperator.ofToken?, Token.isSymbol, hk, htext]

/-- A quotient in parentheses. -/
theorem derives_quotient {ts us rest : List Token} {o t c : Token} (ho : o.isSymbol "(" = true)
    (ht : t.isSymbol "/" = true) (hc : c.isSymbol ")" = true)
    (hz : Derives r (.operand z) (ts ++ t :: (us ++ c :: rest)) (t :: (us ++ c :: rest)))
    (hy : Derives r (.operand y) (us ++ c :: rest) (c :: rest)) :
    Derives r (.operand (binary .div z y)) (o :: (ts ++ t :: (us ++ c :: rest))) rest :=
  .paren ho
    (.expression hz
      (.operator (not_startsUnit_of_symbol (Token.isSymbol_iff.mp ht).1 _) (ofToken?_divide ht)
        (Nat.zero_le _) (.expression hy (.settled (settled_close hc rest)))
        (.settled (settled_close hc rest))))
    hc

/-- A name to the power of a quotient in parentheses. -/
theorem ofText_power_quotient (ha : Token.Lexeme .name a) (hu : OperandText r u z)
    (hw : OperandText r w y) :
    ofText r (a ++ " ^ " ++ ("(" ++ u ++ "/" ++ w ++ ")")) =
      .ok (binary .pow (ident a) (binary .div z y)) := by
  have htext : ("(" ++ u ++ "/" ++ w ++ ")").toList =
      '(' :: (u.toList ++ '/' :: (w.toList ++ [')'])) := by
    simp [String.toList_append]
  have hdigit : Text.isDigit '/' = false ∧ Text.isDigit ')' = false := by decide
  obtain ⟨ts, hscan, hread⟩ := hu (a.toList.length + 4) false
  obtain ⟨us, hscan', hread'⟩ := hw (a.toList.length + 4 + u.toList.length + 1) false
  have hclose (column : Nat) : Token.scan 0 column false [')'] =
      .ok [⟨.symbol, ")", column, false⟩, ⟨.stop, "", column + 1, false⟩] := by
    rw [Token.scan_symbol (by decide) (by decide)]
    rfl
  have hdivide : Token.scan 0 (a.toList.length + 4 + u.toList.length) false
      ('/' :: (w.toList ++ [')'])) = _ := Token.scan_symbol (by decide) (by decide)
  rw [hscan' _ _ (by simp [Token.endsNumber, hdigit]) (hclose _), ok_bind] at hdivide
  have htokens : Token.scan 0 (a.toList.length + 3) true
      ('(' :: (u.toList ++ '/' :: (w.toList ++ [')']))) = _ :=
    Token.scan_symbol (by decide) (by decide)
  rw [hscan _ _ (by simp [Token.endsNumber, hdigit]) hdivide, ok_bind, ← htext] at htokens
  refine ofText_name_power ha htokens (.expression (derives_quotient rfl rfl rfl
    (hread _ ⟨?_, ?_⟩) (hread' _ (settled_close rfl _))) (.settled (settled_stop rfl))) rfl
  · simp [startsUnit]
  · rintro - op hop
    rw [peek_cons, ofToken?_divide (by rfl)] at hop
    obtain rfl := by simpa using hop
    exact (by decide : 3 < signPower)

end Reading

/-! ## Values -/

section Values

variable {scope : Scope Float} {a w : String} {n : Nat} {i : Int}
  {q p : Quantity Float} {z : Expr Float}

/-- A numeral of a whole number is held with the mantissa of that number. -/
theorem Writes.exists_literal (h : Writes w n) (hn : n < 2 ^ 53) :
    ∃ p : Quantity Float, Numeral w (literal p) ∧ p.Plain (wholeMantissa n) (Decimal.log10 n) := by
  obtain ⟨hnumeral, m, e, hdecimal, hvalue⟩ := h
  obtain ⟨p, hp, hplain⟩ := Quantity.exists_plain_of_whole (toRat?_ofDecimal hvalue hn) hn
  have hliteral : (Quantity.ofScalar (Scalar.ofDecimal m e)).normalize = .ok p := hp
  exact ⟨p, ⟨hnumeral, by simp [literalOf, hdecimal, hliteral, Except.toOption]⟩, hplain⟩

/-- An integer is read as an operand whose value has the mantissa of the integer, with its sign. -/
theorem WritesInt.exists_operand (r : Registry Float) (scope : Scope Float) (h : WritesInt w i)
    (hi : i.natAbs < 2 ^ 53) :
    ∃ (z : Expr Float) (p : Quantity Float) (s : Int), OperandText r w z ∧
      eval scope z = .ok p ∧ |s| = 1 ∧ i = s * i.natAbs ∧
      p.Plain (s * wholeMantissa i.natAbs) (Decimal.log10 i.natAbs) := by
  cases h with
  | @plain _ n h =>
    rw [Int.natAbs_natCast] at hi ⊢
    obtain ⟨v, hnumeral, hv⟩ := h.exists_literal hi
    obtain ⟨p, hp, hplain⟩ := hv.normalize_whole hi
    refine ⟨literal v, p, 1, hnumeral.operandText, by rw [eval, hp], rfl, by rw [one_mul], ?_⟩
    rwa [Int.cast_one, one_mul]
  | @minus _ n h =>
    rw [Int.natAbs_neg, Int.natAbs_natCast] at hi ⊢
    obtain ⟨v, hnumeral, hv⟩ := h.exists_literal hi
    obtain ⟨v', hv', hplain⟩ := hv.normalize_whole hi
    obtain ⟨p, hp, hneg⟩ := hplain.neg_whole hi
    refine ⟨unary .neg (literal v), p, -1, hnumeral.operandText.neg, ?_, rfl, by rw [neg_one_mul],
      ?_⟩
    · rw [eval_unary rfl, eval, hv', ok_bind]
      exact hp
    · rwa [Int.cast_neg, Int.cast_one, neg_one_mul]

/-- The power takes the values of the name and of the exponent. -/
theorem eval_name_power (hq : scope.find? a = some q) (hp : eval scope z = .ok p) :
    eval scope (binary .pow (ident a) z) = q.pow p := by
  rw [eval_binary rfl, eval, resolve, hq, hp]
  rfl

/-- An integer as an exponent: what comes back of it decides which power is taken. -/
theorem exists_integer_exponent (r : Registry Float) (ha : Token.Lexeme .name a)
    (hq : scope.find? a = some q) (hw : WritesInt w i) (hi : i.natAbs < 2 ^ 53) :
    ∃ (z : Expr Float) (p : Quantity Float),
      ofText r (a ++ " ^ " ++ w) = .ok (binary .pow (ident a) z) ∧ eval scope z = .ok p ∧
      toRat? p.value = some (i.sign * rebuiltWhole i.natAbs) ∧
      eval scope (binary .pow (ident a) z) =
        match Scalar.toInt? p.value with
        | some k => q.powInt k
        | none => q.powFrac p.value := by
  obtain ⟨z, p, s, htext, hp, hs, hsign, hplain⟩ := hw.exists_operand r scope hi
  have hvalue := hplain.value_whole hs hi
  have hrebuilt : (s * rebuiltWhole i.natAbs : Rat) = i.sign * rebuiltWhole i.natAbs := by
    rcases eq_or_ne i 0 with rfl | hne
    · simp [rebuiltWhole, wholeMantissa_zero, toDouble_zero]
    · have hpos : 0 < (i.natAbs : Int) := by omega
      have hequal : i.sign = s := by
        rw [hsign, Int.sign_mul, Int.sign_eq_one_of_pos hpos, mul_one]
        rcases (abs_eq zero_le_one).mp hs with rfl | rfl <;> rfl
      rw [hequal]
  rw [hrebuilt] at hvalue
  refine ⟨z, p, ofText_power_operand ha htext, hp, hvalue, ?_⟩
  rw [eval_name_power hq hp]
  exact Quantity.pow_of_dimensionless hplain.dim (isFinite_of_toRat? hvalue)

theorem sign_mul_rebuiltWhole (i : Int) :
    (i.sign * rebuiltWhole i.natAbs : Rat) = i ↔ rebuiltWhole i.natAbs = i.natAbs := by
  rcases eq_or_ne i 0 with rfl | hne
  · simp [rebuiltWhole, wholeMantissa_zero, toDouble_zero]
  · have hsign : (i.sign : Rat) ≠ 0 := by exact_mod_cast mt Int.sign_eq_zero_iff_zero.mp hne
    have hsplit : (i : Rat) = i.sign * i.natAbs := by
      rw [← Int.cast_natCast, ← Int.cast_mul, Int.sign_mul_natAbs]
    rw [hsplit, mul_right_inj' hsign]

/-- A fraction as an exponent: it is recognised if the double nearest to it comes back. -/
theorem exists_fraction_exponent (r : Registry Float) {u : String} {d : Nat}
    (ha : Token.Lexeme .name a) (hq : scope.find? a = some q) (hu : WritesInt u i)
    (hw : Writes w d) (hi : i ≠ 0) (hi' : i.natAbs ≤ 1000) (hd : 2 ≤ d) (hd' : d ≤ 1000)
    (hcoprime : i.natAbs.Coprime d) :
    ∃ (z : Expr Float) (p : Quantity Float),
      ofText r (a ++ " ^ " ++ ("(" ++ u ++ "/" ++ w ++ ")")) = .ok (binary .pow (ident a) z) ∧
      eval scope z = .ok p ∧ eval scope (binary .pow (ident a) z) = q.powFrac p.value ∧
      Scalar.rationalize? p.value =
        if toDouble (i.natAbs / d) = rebuiltFraction i.natAbs d then some (i / d : Rat)
        else none := by
  obtain ⟨z, p, s, htext, hp, hs, hsign, hplain⟩ := hu.exists_operand r scope (by omega)
  obtain ⟨y, hnumeral, hy⟩ := hw.exists_literal (by omega)
  obtain ⟨y', hy', hplain'⟩ := hy.normalize_whole (by omega)
  obtain ⟨v, hv, hdim, hvalue⟩ := hplain.value_fraction hs hplain' (by omega) hi' (by omega) hd'
  have heval : eval scope (binary .div z (literal y)) = .ok v := by
    rw [eval_binary rfl, hp, ok_bind, eval, hy', ok_bind]
    exact hv
  have hnone : Scalar.toInt? v.value = none := by
    rw [Option.eq_none_iff_forall_ne_some]
    intro k hk
    exact rebuiltFraction_ne_intCast hs (by omega) hi' hd hcoprime k
      ((toInt?_eq_some hvalue).mp hk)
  refine ⟨_, v, ofText_power_quotient ha htext hnumeral.operandText, heval, ?_, ?_⟩
  · rw [eval_name_power hq heval,
      Quantity.pow_of_dimensionless hdim (isFinite_of_toRat? hvalue), hnone]
  · have hrational := rationalize?_rebuiltFraction hs hvalue (by omega) hi' (by omega) hd'
    rw [← hsign] at hrational
    exact hrational

/-- A small integer that does not come back is taken neither for an integer nor for a fraction. -/
theorem integer_exponent_unrecognised {x : Float} (hi : i.natAbs ≤ 1000)
    (hx : toRat? x = some (i.sign * rebuiltWhole i.natAbs))
    (hne : rebuiltWhole i.natAbs ≠ i.natAbs) :
    Scalar.toInt? x = none ∧ Scalar.rationalize? x = none := by
  have hzero : i ≠ 0 := by
    rintro rfl
    simp [rebuiltWhole, wholeMantissa_zero, toDouble_zero] at hne
  have hpos : 0 < i.natAbs := Int.natAbs_pos.mpr hzero
  have hsign : |i.sign| = 1 := by
    rw [Int.abs_eq_natAbs, Int.natAbs_sign_of_ne_zero hzero, Nat.cast_one]
  have hone := rebuiltFraction_one hpos (by omega)
  have hclose := mul_abs_rebuiltFraction_sub_lt hsign hpos hi Nat.one_pos
  rw [hone, Int.sign_mul_natAbs, Nat.cast_one, div_one] at hclose
  constructor
  · rw [Option.eq_none_iff_forall_ne_some]
    intro k hk
    rw [toInt?_eq_some hx] at hk
    rw [hk] at hclose
    have hnear : |((k - i : Int) : Rat)| < 1 := by
      push_cast
      linarith [abs_nonneg ((k : Rat) - i)]
    have hequal : k = i := by
      have hint : |k - i| < 1 := by exact_mod_cast hnear
      exact sub_eq_zero.mp (Int.abs_lt_one_iff.mp hint)
    exact hne ((sign_mul_rebuiltWhole i).mp (hequal ▸ hk))
  · rw [← hone] at hx hne
    refine (rationalize?_rebuiltFraction hsign hx hpos hi Nat.one_pos (by norm_num)).trans
      (if_neg ?_)
    rw [Nat.cast_one, div_one, toDouble_natCast (by omega)]
    exact hne.symm

end Values

/-! ## Written exponents -/

/-- **Exponents as they are written.**  An integer below `2 ^ 53` written as an exponent is taken as
itself exactly if multiplying it out of its mantissa gives it back; then the power has that multiple
of the dimension.  A fraction in lowest terms is accepted exactly if the double nearest to it comes
back, and the power has that multiple of the dimension. -/
theorem pow_written (r : Registry Float) (scope : Scope Float) {a : String} {q : Quantity Float}
    (ha : Token.IsName a.toList) (hq : scope.find? a = some q) :
    (∀ (w : String) (i : Int), WritesInt w i → |i| < 2 ^ 53 →
      ∃ (z : Expr Float) (p : Quantity Float),
        ofText r (a ++ " ^ " ++ w) = .ok (binary .pow (ident a) z) ∧ eval scope z = .ok p ∧
        eval scope (binary .pow (ident a) z) =
          (match Scalar.toInt? p.value with
          | some k => q.powInt k
          | none => q.powFrac p.value) ∧
        (Scalar.toInt? p.value = some i ↔ rebuiltWhole i.natAbs = i.natAbs) ∧
        (rebuiltWhole i.natAbs = i.natAbs → eval scope (binary .pow (ident a) z) = q.powInt i ∧
          ∀ v, eval scope (binary .pow (ident a) z) = .ok v → v.dim = q.dim.pow i)) ∧
    ∀ (u w : String) (i : Int) (d : Nat), WritesInt u i → Writes w d → i ≠ 0 → |i| ≤ 1000 →
      2 ≤ d → d ≤ 1000 → i.natAbs.Coprime d →
      ∃ z : Expr Float,
        ofText r (a ++ " ^ " ++ ("(" ++ u ++ "/" ++ w ++ ")")) = .ok (binary .pow (ident a) z) ∧
        ((∀ text, eval scope (binary .pow (ident a) z) ≠
            .error (.calc (.inexactExponent text))) ↔
          toDouble (i.natAbs / d) = rebuiltFraction i.natAbs d) ∧
        ∀ v, eval scope (binary .pow (ident a) z) = .ok v → v.dim = q.dim.pow (i / d) := by
  refine ⟨fun w i hw hi ↦ ?_, fun u w i d hu hw hi hi' hd hd' hcoprime ↦ ?_⟩
  · rw [Int.abs_eq_natAbs] at hi
    obtain ⟨z, p, htext, hp, hvalue, heval⟩ :=
      exists_integer_exponent r ha.lexeme hq hw (by exact_mod_cast hi)
    have hexact : Scalar.toInt? p.value = some i ↔ rebuiltWhole i.natAbs = i.natAbs := by
      rw [toInt?_eq_some hvalue, sign_mul_rebuiltWhole]
    refine ⟨z, p, htext, hp, heval, hexact, fun hrebuilt ↦ ?_⟩
    have hpower : eval scope (binary .pow (ident a) z) = q.powInt i := by
      rw [heval, hexact.mpr hrebuilt]
    exact ⟨hpower, fun v hv ↦ Quantity.powInt_dim (hpower ▸ hv)⟩
  · rw [Int.abs_eq_natAbs] at hi'
    obtain ⟨z, p, htext, -, heval, hrational⟩ :=
      exists_fraction_exponent r ha.lexeme hq hu hw hi (by exact_mod_cast hi') hd hd' hcoprime
    refine ⟨z, htext, ?_⟩
    rw [heval]
    split at hrational
    · next hrebuilt =>
      exact ⟨iff_of_true (Quantity.powFrac_ne_inexact hrational) hrebuilt,
        fun v hv ↦ Quantity.powFrac_dim hrational hv⟩
    · next hrebuilt =>
      rw [Quantity.powFrac_inexact hrational]
      exact ⟨iff_of_false (fun h ↦ h _ rfl) hrebuilt, by simp⟩

/-- The exponents of `x ^ 3` and `x ^ (-2/3)` are taken as they are written. -/
theorem pow_written_two_metres :
    ∃ (q : Quantity Float) (y z : Expr Float), q = ⟨Scalar.ofNat 2, .decimal (.base .length) 0⟩ ∧
      ofText Registry.standard "x ^ 3" = .ok (binary .pow (ident "x") y) ∧
      eval ⟨[("x", q)]⟩ (binary .pow (ident "x") y) = q.powInt 3 ∧
      ofText Registry.standard "x ^ (-2/3)" = .ok (binary .pow (ident "x") z) ∧
      ∀ text, eval ⟨[("x", q)]⟩ (binary .pow (ident "x") z) ≠
        .error (.calc (.inexactExponent text)) := by
  let q : Quantity Float := ⟨Scalar.ofNat 2, .decimal (.base .length) 0⟩
  have hname : Token.IsName "x".toList := ⟨by decide, by decide, by decide⟩
  have hbound : (⟨[("x", q)]⟩ : Scope Float).find? "x" = some q := List.lookup_cons_self
  have hwhole : rebuiltWhole 3 = (3 : Nat) := by decide +kernel
  have hfraction : toDouble ((2 : Nat) / (3 : Nat)) = rebuiltFraction 2 3 := by decide +kernel
  have hmain := pow_written Registry.standard ⟨[("x", q)]⟩ hname hbound
  obtain ⟨y, -, hy, -, -, -, hpower⟩ := hmain.1 "3" 3 (.plain (writes_toString 3)) (by norm_num)
  obtain ⟨z, hz, hrefused, -⟩ := hmain.2 "-2" "3" (-2) 3 (.minus (writes_toString 2))
    (writes_toString 3) (by decide) (by norm_num) (by norm_num) (by norm_num) (by decide)
  exact ⟨q, y, z, rfl, hy, (hpower hwhole).1, hz, hrefused.mpr hfraction⟩

/-- Not every exponent is taken as it is written: `x ^ 109` and `x ^ (1/9)` are refused, also for
one metre. -/
theorem exists_exponent_refused :
    ∃ (q : Quantity Float) (y z : Expr Float), q = ⟨Scalar.ofNat 1, .decimal (.base .length) 0⟩ ∧
      WritesInt "109" 109 ∧
      ofText Registry.standard "x ^ 109" = .ok (binary .pow (ident "x") y) ∧
      (∃ text, eval ⟨[("x", q)]⟩ (binary .pow (ident "x") y) =
        .error (.calc (.inexactExponent text))) ∧
      WritesInt "1" 1 ∧ Writes "9" 9 ∧
      ofText Registry.standard "x ^ (1/9)" = .ok (binary .pow (ident "x") z) ∧
      ∃ text, eval ⟨[("x", q)]⟩ (binary .pow (ident "x") z) =
        .error (.calc (.inexactExponent text)) := by
  let q : Quantity Float := ⟨Scalar.ofNat 1, .decimal (.base .length) 0⟩
  have hname : Token.IsName "x".toList := ⟨by decide, by decide, by decide⟩
  have hbound : (⟨[("x", q)]⟩ : Scope Float).find? "x" = some q := List.lookup_cons_self
  have hwhole : rebuiltWhole 109 ≠ (109 : Nat) := by decide +kernel
  have hfraction : ¬toDouble ((1 : Nat) / (9 : Nat)) = rebuiltFraction 1 9 := by decide +kernel
  obtain ⟨y, p, hy, -, hvalue, heval⟩ := exists_integer_exponent Registry.standard hname.lexeme
    hbound (.plain (writes_toString 109)) (by norm_num)
  obtain ⟨hinteger, hrational⟩ := integer_exponent_unrecognised (by norm_num) hvalue hwhole
  obtain ⟨z, p', hz, -, heval', hrational'⟩ := exists_fraction_exponent Registry.standard
    hname.lexeme hbound (.plain (writes_toString 1)) (writes_toString 9) (by decide) (by norm_num)
    (by norm_num) (by norm_num) (by decide)
  replace hrational' := hrational'.trans (if_neg hfraction)
  rw [hinteger] at heval
  exact ⟨q, y, z, rfl, .plain (writes_toString 109), hy,
    ⟨_, heval.trans (Quantity.powFrac_inexact hrational)⟩, .plain (writes_toString 1),
    writes_toString 9, hz, ⟨_, heval'.trans (Quantity.powFrac_inexact hrational')⟩⟩

/-- The first integer that does not come back. -/
example : (∀ n < 109, rebuiltWhole n = n) ∧ rebuiltWhole 109 ≠ 109 := by
  decide +kernel

end Expr
end Mensura
