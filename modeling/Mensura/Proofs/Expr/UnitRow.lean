import Mensura.Proofs.Expr.Numeral
import Mensura.Proofs.UnitExpr.Row

/-!
# Rows of unit names behind values

The tokens of expressions cut a unit differently from the tokens of unit expressions: a sign is a
token of its own, and what matters is where the blanks are.  A row of names is read as its plan all
the same (`Row.exists_tokens`), provided that nothing behind it goes on with a unit.
-/

set_option autoImplicit false

namespace Mensura
namespace Expr

open Token UnitExpr UnitExpr.Grammar

/-- A name of a unit: one token, and no command. -/
structure IsUnitName (cs : List Char) : Prop where
  isName : IsName cs
  plain : cs.head? ≠ some '\\'

/-- A name of letters is the name of a unit. -/
theorem isUnitName_of_isLetters {cs : List Char} (h : IsLetters cs) : IsUnitName cs := by
  obtain ⟨hne, halpha⟩ := h
  obtain ⟨c, cs, rfl⟩ := List.exists_cons_of_ne_nil hne
  have hletter := fun d hd ↦ isLetter_of_isAlpha (halpha d hd)
  have hc := hletter c List.mem_cons_self
  have hword : ∀ d ∈ cs, Text.isWordChar d = true := fun d hd ↦
    isWordChar_of_isLetter (hletter d (List.mem_cons_of_mem _ hd)).1
  have hrun : cs.takeWhile Text.isWordChar = cs := by
    rw [← List.append_nil cs, List.takeWhile_append_of_pos hword]
    rfl
  have hdot : c ≠ '.' ∧ c ≠ '\\' := by
    constructor <;> rintro rfl <;> exact absurd (halpha _ List.mem_cons_self) (by decide)
  have hnumber : startsNumber (c :: cs) = false := by simp [startsNumber, hc, hdot]
  have hname : Token.startsName (c :: cs) = true := by simp [Token.startsName, hc]
  exact ⟨hrun ▸ isName_takeWhile hnumber hname, by simpa using hdot.2⟩

theorem IsUnitName.exists_cons {cs : List Char} (h : IsUnitName cs) :
    ∃ c rest, cs = c :: rest ∧ c ≠ '*' := by
  obtain ⟨c, rest, rfl⟩ := List.exists_cons_of_ne_nil h.isName.ne_nil
  refine ⟨c, rest, rfl, ?_⟩
  rintro rfl
  have hstarts := h.isName.starts
  simp [Token.startsName, show Text.isLetter '*' = false by decide] at hstarts

/-- Neither a power nor a list of arguments is in front. -/
structure EndsName (ts : List Token) : Prop where
  power : (peek ts).isSymbol "^" = false
  call : opensCall ts = false

/-- A name is neither. -/
theorem endsName_of_startsUnit {ts : List Token} (h : startsUnit ts = true) : EndsName ts := by
  obtain ⟨t, rest, rfl⟩ := List.exists_cons_of_ne_nil (startsUnit_ne_nil h)
  have hkind : t.kind = .name := by
    simp only [startsUnit, Bool.and_eq_true, decide_eq_true_eq] at h
    exact h.1.1
  constructor <;> simp [opensCall, peek_cons, isSymbol, hkind]

/-- Nothing in front goes on with a unit. -/
structure EndsUnit (ts : List Token) : Prop extends EndsName ts where
  beside : startsUnit ts = false
  times : continuesUnit "*" ts = false
  per : continuesUnit "/" ts = false

/-- Behind a unit comes the end, or a parenthesis closes. -/
theorem endsUnit_of_closes {t : Token} {rest : List Token}
    (h : t.kind = .stop ∨ t.isSymbol ")" = true) : EndsUnit (t :: rest) := by
  have hsymbol : ∀ s, s ≠ ")" → t.isSymbol s = false := by
    intro s hs
    rcases h with h | h
    · simp [isSymbol, h]
    · simp [isSymbol, (isSymbol_iff.mp h).2, hs.symm]
  have hname : t.kind ≠ .name := by
    rcases h with h | h
    · simp [h]
    · simp [(isSymbol_iff.mp h).1]
  refine ⟨⟨hsymbol _ (by decide), ?_⟩, ?_, ?_, ?_⟩
  · simp [opensCall, peek_cons, hsymbol "(" (by decide)]
  · simp [startsUnit, hname]
  · simp [continuesUnit, peek_cons, hsymbol "*" (by decide)]
  · simp [continuesUnit, peek_cons, hsymbol "/" (by decide)]

/-- What ends an expression, at any power. -/
inductive Ends (t : Token) : Prop
  | stop : t.kind = .stop → Ends t
  | closes : t.isSymbol ")" = true → Ends t
  | comma : t.isSymbol "," = true → Ends t

theorem Ends.not_opensCall {t : Token} (h : Ends t) (rest : List Token) :
    opensCall (t :: rest) = false := by
  rcases h with h | h | h <;> first
    | simp [opensCall, peek_cons, isSymbol, h]; done
    | simp [opensCall, peek_cons, isSymbol, (isSymbol_iff.mp h).2]

theorem Ends.climb {α : Type} [Scalar α] {r : Registry α} {fuel power : Nat} {left : Expr α}
    {t : Token} (h : Ends t) (rest : List Token) :
    Expr.climb r fuel power left (t :: rest) = .ok (left, t :: rest) := by
  cases fuel with
  | zero => rfl
  | succ fuel =>
    rcases h with h | h | h
    · simp [Expr.climb, startsUnit, peek_cons, InfixOperator.ofToken?, isSymbol, h]
    all_goals
      obtain ⟨hkind, htext⟩ := isSymbol_iff.mp h
      simp [Expr.climb, startsUnit, peek_cons, InfixOperator.ofToken?, isSymbol, hkind, htext]

/-! ## Exponents -/

theorem isDigit_of_isDecimalDigit {c : Char} (h : Text.isDecimalDigit c = true) :
    Text.isDigit c = true := by
  simp [Text.isDigit, h]

/-- The sign of an exponent is read before its digits, and counts them alike. -/
theorem Row.Exponent.integer_eq (x : Row.Exponent) :
    Text.integer (String.ofList x.integer) =
      (fun n ↦ if x.sign = some .minus then -n else n) <$>
        Text.integer (String.ofList x.digits) := by
  obtain ⟨sign, digits, inParentheses, hne, hdecimal⟩ := x
  rw [Text.integer_digits hne hdecimal]
  cases sign with
  | none =>
    rw [Row.Exponent.integer, Text.integer_digits hne hdecimal, Text.bounded]
    split <;> rfl
  | some sign =>
    have hsign : sign.char = '+' ∨ sign.char = '-' := by cases sign <;> simp [Sign.char]
    rw [Row.Exponent.integer, Text.integer_signed hsign hne hdecimal, Text.bounded, Text.bounded]
    split
    · rfl
    · cases sign <;> rfl

/-- The tokens of a signed integer. -/
def signedTokens (x : Row.Exponent) (column : Nat) : List Token :=
  match x.sign with
  | none => [⟨.number, String.ofList x.digits, column, false⟩]
  | some sign =>
    [⟨.symbol, String.singleton sign.char, column, false⟩,
      ⟨.number, String.ofList x.digits, column + 1, false⟩]

theorem cuts_integer (x : Row.Exponent) (column : Nat) :
    Cuts column false x.integer (signedTokens x column) := by
  have hnumeral : IsNumeral x.digits :=
    isNumeral_digits x.ne_nil fun c hc ↦ isDigit_of_isDecimalDigit (x.decimal c hc)
  rw [Row.Exponent.integer, signedTokens]
  cases x.sign with
  | none => exact hnumeral.cuts
  | some sign => exact .symbol (by cases sign <;> decide) (by cases sign <;> decide) hnumeral.cuts

theorem peek_signedTokens (x : Row.Exponent) (column : Nat) (rest : List Token) :
    (peek (signedTokens x column ++ rest)).isSymbol "(" = false := by
  rw [signedTokens]
  cases x.sign with
  | none => rfl
  | some sign => cases sign <;> rfl

theorem signedInteger_eq (x : Row.Exponent) (column : Nat) (rest : List Token) :
    signedInteger (signedTokens x column ++ rest) =
      leaving (Text.integer (String.ofList x.integer)) rest := by
  have hdigits : ∀ c ∈ x.digits, Text.isDigit c = true :=
    fun c hc ↦ isDigit_of_isDecimalDigit (x.decimal c hc)
  rw [Row.Exponent.integer_eq, signedTokens]
  rcases x.sign with - | - | - <;>
    simp [signedInteger, peek_cons, isSymbol, Sign.char, if_pos hdigits] <;>
    cases Text.integer (String.ofList x.digits) <;> rfl

theorem exists_exponent_tokens (x : Row.Exponent) (column : Nat) : ∃ ts,
    Cuts column false x.chars ts ∧ ∀ rest, unitExponent (ts ++ rest) =
      leaving (Text.integer (String.ofList x.integer)) rest := by
  rw [Row.Exponent.chars]
  split
  · refine ⟨⟨.symbol, "(", column, false⟩ :: (signedTokens x (column + 1) ++
      [⟨.symbol, ")", column + 1 + x.integer.length, false⟩]), ?_, fun rest ↦ ?_⟩
    · exact .symbol (by decide) (by decide) ((cuts_integer x _).append
        (.symbol (by decide) (by decide) .nil) (separated_cons (by decide)))
    · rw [unitExponent, if_pos (by rfl)]
      simp only [List.cons_append, List.drop_succ_cons, List.drop_zero, List.append_assoc,
        signedInteger_eq, leaving_bind]
      simp [expect, peek_cons, isSymbol, leaving]
  · refine ⟨signedTokens x column, cuts_integer x column, fun rest ↦ ?_⟩
    rw [unitExponent, if_neg (by simp [peek_signedTokens]), signedInteger_eq]

/-! ## Names -/

theorem exists_piece_tokens {p : Row.Piece} (hname : IsUnitName p.name) (column : Nat)
    (spaced : Bool) : ∃ ts, Cuts column spaced p.chars ts ∧ 0 < ts.length ∧ ∀ rest, EndsName rest →
      startsUnit (ts ++ rest) = true ∧ unitTerm (ts ++ rest) = leaving p.term.plan rest := by
  obtain ⟨name, x⟩ := p
  rw [Row.Piece.chars, Row.Piece.term, Grammar.Term.plan, Factor.plan, ok_bind]
  cases x with
  | none =>
    refine ⟨[⟨.name, String.ofList name, column, spaced⟩], ?_, Nat.zero_lt_one,
      fun rest hrest ↦ ⟨?_, ?_⟩⟩
    · rw [Row.powerChars, List.append_nil]
      exact hname.isName.cuts
    · simp [startsUnit, hrest.call, hname.plain]
    · simp [unitTerm, peek_cons, hrest.power, leaving, poweredPlan]
  | some x =>
    obtain ⟨ts, hcuts, hread⟩ := exists_exponent_tokens x (column + name.length + 1)
    refine ⟨⟨.name, String.ofList name, column, spaced⟩ ::
      ⟨.symbol, "^", column + name.length, false⟩ :: ts, ?_, Nat.zero_lt_succ _,
      fun rest hrest ↦ ⟨?_, ?_⟩⟩
    · exact hname.isName.cuts.append (.symbol (by decide) (by decide) hcuts)
        (separated_cons (by decide))
    · simp [startsUnit, opensCall, peek_cons, isSymbol, hname.plain]
    · simp only [unitTerm, List.cons_append, peek_cons, List.drop_succ_cons, List.drop_zero]
      rw [if_pos (by rfl), hread, leaving_bind]
      simp only [Option.map_some, poweredPlan, Row.power, leaving]
      cases Text.integer (String.ofList x.integer) <;> rfl

/-! ## Links -/

/-- The tokens of a link; a blank is none, but shows in the token behind it. -/
def linkTokens (link : Link) (column : Nat) : List Token :=
  match link with
  | .beside => []
  | .times => [⟨.symbol, "*", column, false⟩]
  | .per => [⟨.symbol, "/", column, false⟩]

theorem cuts_link {link : Link} {column : Nat} {c : Char} {cs : List Char} {ts : List Token}
    (hc : c ≠ '*') (h : Cuts (column + 1) (decide (link = .beside)) (c :: cs) ts) :
    Cuts column false (link.char :: c :: cs) (linkTokens link column ++ ts) := by
  cases link with
  | beside => exact h.blank
  | times => exact .star (List.cons_ne_nil c cs) (by simpa using hc) h
  | per => exact .symbol (by decide) (by decide) h

/-- Behind a link and where a name starts, a unit goes on. -/
theorem moreUnits_link {link : Link} {column fuel : Nat} {left : UnitExpr} {ts : List Token}
    (h : startsUnit ts = true) : moreUnits (fuel + 1) left (linkTokens link column ++ ts) =
      unitTerm ts >>= fun p ↦ moreUnits fuel (link.join left p.1) p.2 := by
  cases link with
  | beside =>
    rw [linkTokens, List.nil_append, moreUnits, if_pos h]
    rfl
  | times =>
    simp [linkTokens, moreUnits, not_startsUnit_of_symbol, continuesUnit, peek_cons, isSymbol, h,
      Link.join]
  | per =>
    simp [linkTokens, moreUnits, not_startsUnit_of_symbol, continuesUnit, peek_cons, isSymbol, h,
      Link.join]

theorem endsName_link {link : Link} {column : Nat} {ts : List Token} (h : startsUnit ts = true) :
    EndsName (linkTokens link column ++ ts) := by
  cases link with
  | beside => exact endsName_of_startsUnit h
  | times | per => exact ⟨rfl, rfl⟩

/-! ## Rows -/

theorem exists_more_tokens {more : List (Link × Row.Piece)}
    (hnames : ∀ x ∈ more, IsUnitName x.2.name) (column : Nat) : ∃ ts,
      Cuts column false (Row.moreChars more) ts ∧ more.length ≤ ts.length ∧ ∀ rest, EndsUnit rest →
        EndsName (ts ++ rest) ∧ ∀ fuel left, more.length ≤ fuel →
          moreUnits fuel left (ts ++ rest) = leaving ((Row.terms more).planAfter left) rest := by
  induction more generalizing column with
  | nil =>
    refine ⟨[], .nil, Nat.le_refl _, fun rest hrest ↦ ⟨hrest.toEndsName, fun fuel left _ ↦ ?_⟩⟩
    simp only [Row.terms, More.planAfter, List.nil_append]
    cases fuel with
    | zero => rfl
    | succ fuel => simp [moreUnits, hrest.beside, hrest.times, hrest.per, leaving]
  | cons x more ih =>
    obtain ⟨link, p⟩ := x
    obtain ⟨hp, hmore⟩ := List.forall_mem_cons.mp hnames
    obtain ⟨ts, hts, hpos, hpiece⟩ := exists_piece_tokens hp (column + 1) (decide (link = .beside))
    obtain ⟨us, hus, hlength, hread⟩ := ih hmore (column + 1 + p.chars.length)
    have hsep : Separated (Row.moreChars more) := by
      simpa using Row.separated_moreChars more separated_nil
    have hcuts := hts.append hus hsep
    obtain ⟨c, cs, hcons, hc⟩ := hp.exists_cons
    refine ⟨linkTokens link column ++ (ts ++ us), ?_, ?_, fun rest hrest ↦ ?_⟩
    · rw [Row.moreChars]
      rw [Row.Piece.chars, hcons] at hcuts ⊢
      exact cuts_link hc hcuts
    · simp only [List.length_cons, List.length_append]
      omega
    · obtain ⟨hends, hunits⟩ := hread rest hrest
      obtain ⟨hstarts, hterm⟩ := hpiece (us ++ rest) hends
      rw [List.append_assoc, List.append_assoc]
      refine ⟨endsName_link hstarts, fun fuel left hfuel ↦ ?_⟩
      obtain ⟨fuel, rfl⟩ := Nat.exists_eq_add_of_le' (Nat.lt_of_lt_of_le (Nat.zero_lt_succ _) hfuel)
      rw [moreUnits_link hstarts, hterm, leaving_bind, Row.terms, More.planAfter, leaving_of_bind]
      simp only [hunits _ _ (Nat.le_of_succ_le_succ hfuel)]

/-- **A row of names is read as its plan**, if nothing behind it goes on with a unit. -/
theorem exists_row_tokens {row : Row} (hnames : row.Named IsUnitName) (column : Nat)
    (spaced : Bool) : ∃ ts, Cuts column spaced row.chars ts ∧ ∀ rest, EndsUnit rest →
      startsUnit (ts ++ rest) = true ∧ unitExpr (ts ++ rest) = leaving row.plan rest := by
  obtain ⟨ts, hts, -, hpiece⟩ := exists_piece_tokens hnames.first column spaced
  obtain ⟨us, hus, hlength, hmore⟩ :=
    exists_more_tokens hnames.more (column + row.first.chars.length)
  have hsep : Separated (Row.moreChars row.more) := by
    simpa using Row.separated_moreChars row.more separated_nil
  refine ⟨ts ++ us, hts.append hus hsep, fun rest hrest ↦ ?_⟩
  obtain ⟨hends, hunits⟩ := hmore rest hrest
  obtain ⟨hstarts, hterm⟩ := hpiece (us ++ rest) hends
  rw [List.append_assoc]
  refine ⟨hstarts, ?_⟩
  have hfuel : row.more.length ≤ (ts ++ (us ++ rest)).length := by
    simp only [List.length_append]
    omega
  rw [unitExpr, hterm, leaving_bind, Row.plan, Row.derivation, Expression.plan, leaving_of_bind]
  simp only [hunits _ _ hfuel]

end Expr
end Mensura
