import Mensura.Proofs.Expr.Exponent
import Mensura.Proofs.Expr.UnitRow
import Mensura.Proofs.Quantity.Rounding

/-!
# Rounding integers as they are written

What becomes of `ceil(109)` and `floor(-5 m)`, from the text to the display.

The argument of a function reaches it in base units, multiplied out of mantissa and power of ten.
`rounding_written` says what is displayed: the integer that `rebuiltInt` is rounded to.  Rounding to
the nearest integer gives the written one back; rounding down does so exactly if what comes back is
not below it, and rounding up if it is not above.
-/

set_option autoImplicit false

namespace Mensura
namespace Expr

open Token UnitExpr

/-! ## Reading -/

section Reading

variable {α : Type} [Scalar α] {r : Registry α} {e : Expr α}

/-- The characters are read as an expression of some power if a parenthesis closes behind them. -/
def EnclosedText (r : Registry α) (power : Nat) (text : List Char) (e : Expr α) : Prop :=
  ∀ column spaced, ∃ ts, Cuts column spaced text ts ∧ ∀ c rest, c.isSymbol ")" = true →
    Derives r (.expression power e) (ts ++ c :: rest) (c :: rest)

/-- An expression does not begin with a parenthesis that closes. -/
theorem Derives.not_closes {power : Nat} {ts rest : List Token}
    (h : Derives r (.expression power e) ts rest) : (peek ts).isSymbol ")" = false := by
  cases h with
  | expression hfirst _ =>
    cases hfirst with
    | number hkind | ident hkind | emptyCall hkind | call hkind =>
      simp [peek_cons, isSymbol, hkind]
    | paren ho | minus ho | plus ho => simp [peek_cons, isSymbol, (isSymbol_iff.mp ho).2]

/-- Blanks show in the next token only. -/
theorem exists_cuts_blanks {blanks : List Char} (h : ∀ c ∈ blanks, Text.isBlank c = true)
    (column : Nat) (spaced : Bool) : ∃ spaced', ∀ cs ts,
      Cuts (column + blanks.length) spaced' cs ts → Cuts column spaced (blanks ++ cs) ts := by
  induction blanks generalizing column spaced with
  | nil => exact ⟨spaced, fun _ _ ↦ id⟩
  | cons b blanks ih =>
    obtain ⟨hb, hblanks⟩ := List.forall_mem_cons.mp h
    obtain ⟨spaced', hcuts⟩ := ih hblanks (column + 1) true
    refine ⟨spaced', fun cs ts hcs rest tokens hrest htokens ↦ ?_⟩
    rw [List.length_cons, Nat.add_comm blanks.length, ← Nat.add_assoc] at hcs
    rw [List.cons_append, List.cons_append, scan_blank hb]
    refine hcuts cs ts hcs rest tokens hrest ?_
    rwa [List.cons_append, List.length_cons, Nat.add_comm (blanks ++ cs).length,
      ← Nat.add_assoc] at htokens

/-- A numeral, and something behind it that does not go on with it. -/
theorem cuts_numeral_append {column : Nat} {spaced : Bool} {cs ds : List Char} {ts : List Token}
    (hcs : IsNumeral cs) (hne : ds ≠ []) (hds : endsNumber ds = true)
    (h : Cuts (column + cs.length) false ds ts) :
    Cuts column spaced (cs ++ ds) (⟨.number, String.ofList cs, column, spaced⟩ :: ts) := by
  intro rest tokens hrest htokens
  have hends : endsNumber (ds ++ rest) = true := by
    obtain ⟨d, ds, rfl⟩ := List.exists_cons_of_ne_nil hne
    exact hds
  rw [List.length_append, ← Nat.add_assoc] at htokens
  rw [List.append_assoc, scan_numeral hcs hends, h rest tokens hrest htokens]
  rfl

theorem Numeral.enclosed {text : String} (h : Numeral text e) (power : Nat) :
    EnclosedText r power text.toList e := by
  refine fun column spaced ↦ ⟨_, h.isNumeral.cuts, fun c rest hc ↦ ?_⟩
  rw [String.ofList_toList]
  exact .expression (h.operand _ _ _) (.settled (settled_close hc rest))

/-- A unit binds more tightly than a sign. -/
theorem Numeral.enclosed_attach {text : String} (h : Numeral text e) {blanks : List Char}
    (hblanks : ∀ c ∈ blanks, Text.isBlank c = true) {row : Row} (hnames : row.Named IsUnitName)
    (hends : endsNumber row.chars = true) {plan : UnitExpr} {u : PhysUnit α}
    (hplan : row.plan = .ok plan) (hu : r.eval plan = .ok u) {power : Nat}
    (hpower : power ≤ unitPower) :
    EnclosedText r power (text.toList ++ (blanks ++ row.chars))
      (unary (.attach u plan.label) e) := by
  intro column spaced
  obtain ⟨spaced', hspace⟩ := exists_cuts_blanks hblanks (column + text.toList.length) false
  obtain ⟨ts, hts, hread⟩ :=
    exists_row_tokens hnames (column + text.toList.length + blanks.length) spaced'
  have hne : blanks ++ row.chars ≠ [] := by
    simp [Row.chars, Row.Piece.chars, hnames.first.isName.ne_nil]
  refine ⟨_, cuts_numeral_append h.isNumeral hne (endsNumber_blanks_append hblanks hends)
    (hspace _ _ hts), fun c rest hc ↦ ?_⟩
  obtain ⟨hstarts, hunit⟩ := hread (c :: rest) (endsUnit_of_closes (.inr hc))
  rw [hplan] at hunit
  rw [String.ofList_toList]
  exact .expression (h.operand _ _ _)
    (.attach hstarts hpower hunit hu (.settled (settled_close hc rest)))

/-- A sign, and a value with its unit behind it. -/
theorem EnclosedText.neg {text : List Char} (h : EnclosedText r signPower text e) (power : Nat) :
    EnclosedText r power ('-' :: text) (unary .neg e) := by
  intro column spaced
  obtain ⟨ts, hts, hread⟩ := h (column + 1) false
  refine ⟨_, .symbol (by decide) (by decide) hts, fun c rest hc ↦ ?_⟩
  exact .expression (.minus rfl (hread c rest hc)) (.settled (settled_close hc rest))

/-- A call of one argument that is all of a text. -/
theorem ofText_call {name : String} {text : String} (hname : IsName name.toList)
    (h : EnclosedText r 0 text.toList e) :
    ofText r (name ++ "(" ++ text ++ ")") = .ok (call name [e]) := by
  obtain ⟨ts, hts, hread⟩ := h (name.toList.length + 1) false
  have htext : (name ++ "(" ++ text ++ ")").toList =
      name.toList ++ '(' :: (text.toList ++ [')']) := by
    simp [String.toList_append]
  have hcuts : Cuts 0 false (name ++ "(" ++ text ++ ")").toList
      ([⟨.name, name, 0, false⟩] ++ ⟨.symbol, "(", name.toList.length, false⟩ ::
        (ts ++ [⟨.symbol, ")", name.toList.length + 1 + text.toList.length, false⟩])) := by
    have hclose : Cuts (name.toList.length + 1 + text.toList.length) false [')'] _ :=
      .symbol (by decide) (by decide) .nil
    have hopen : Cuts name.toList.length false ('(' :: (text.toList ++ [')'])) _ :=
      .symbol (by decide) (by decide) (hts.append hclose (separated_cons (by decide)))
    have hnamed : Cuts 0 false name.toList [⟨.name, name, 0, false⟩] := by
      simpa only [String.ofList_toList] using hname.cuts
    rw [htext]
    exact hnamed.append (by rwa [Nat.zero_add]) (separated_cons (by decide))
  obtain ⟨stop, hstop, htokens⟩ : ∃ stop : Token, stop.kind = .stop ∧
      Token.ofText (name ++ "(" ++ text ++ ")") = .ok (_ ++ [stop]) := ⟨_, rfl, hcuts.ofText⟩
  have hargument := hread ⟨.symbol, ")", name.toList.length + 1 + text.toList.length, false⟩
    [stop] rfl
  refine ofText_eq_ok.mpr ⟨_, htokens, ofTokens_eq_ok.mpr ⟨[stop], ?_, hstop⟩⟩
  simp only [List.cons_append, List.nil_append, List.append_assoc]
  exact .expression (.call rfl rfl hargument.not_closes (.lastArgument hargument rfl) rfl)
    (.settled (settled_stop hstop))

end Reading

/-! ## Values -/

section Values

open Binary64

variable {scope : Scope Float} {w unit : String} {n : Nat} {i : Int} {d : Dimension}

/-- What may stand behind a number, with its dimension: nothing, or a base unit with blanks before
it or without. -/
inductive BaseUnitText : String → Dimension → Prop
  | none : BaseUnitText "" 1
  | base (blanks : List Char) (b : Base) : (∀ c ∈ blanks, Text.isBlank c = true) →
    BaseUnitText (String.ofList blanks ++ b.symbol) (.base b)

/-- The symbols of the base units stand for them. -/
theorem resolve_symbol (b : Base) : ∃ u : PhysUnit Float,
    Registry.standard.resolve b.symbol = .ok u ∧ u.dim = .base b ∧ u.decExp = 0 ∧
      toRat? u.multiplier = some 1 := by
  have htable : ((Registry.standard.resolve b.symbol : Result (PhysUnit Float)).toOption.map
      fun u ↦ (u.dim, u.decExp, toRat? u.multiplier)) = some (.base b, 0, some 1) := by
    cases b <;> decide +kernel
  cases hu : (Registry.standard.resolve b.symbol : Result (PhysUnit Float)) with
  | error e => rw [hu] at htable; cases htable
  | ok u =>
    rw [hu] at htable
    simp only [Except.toOption, Option.map_some, Option.some.injEq, Prod.mk.injEq] at htable
    exact ⟨u, rfl, htable⟩

/-- The row of a base unit alone. -/
def baseRow (b : Base) : Row :=
  ⟨⟨b.symbol.toList, none⟩, []⟩

theorem baseRow_chars (b : Base) : (baseRow b).chars = b.symbol.toList := by
  simp [baseRow, Row.chars, Row.Piece.chars, Row.moreChars, Row.powerChars]

theorem baseRow_plan (b : Base) : (baseRow b).plan = .ok (.name b.symbol) := by
  have hname : String.ofList b.symbol.toList = b.symbol := String.ofList_toList
  rw [← hname]
  rfl

/-- A base unit is a name of letters, with which no number goes on. -/
theorem baseRow_named (b : Base) :
    (baseRow b).Named IsUnitName ∧ endsNumber (baseRow b).chars = true := by
  have hletters : IsLetters b.symbol.toList := by
    have hall : b.symbol.toList.all Char.isAlpha = true := by cases b <;> decide
    exact ⟨by cases b <;> decide, List.all_eq_true.mp hall⟩
  refine ⟨⟨isUnitName_of_isLetters hletters, by simp [baseRow]⟩, ?_⟩
  rw [baseRow_chars]
  cases b <;> decide

/-- A whole number is read with the unit behind it, and holds that number of base units. -/
theorem Writes.exists_enclosed (scope : Scope Float) (hw : Writes w n) (hn : |(n : Int)| < 2 ^ 53)
    (hunit : BaseUnitText unit d) :
    ∃ (z : Expr Float) (p : Quantity Float),
      (∀ power ≤ unitPower, EnclosedText Registry.standard power (w ++ unit).toList z) ∧
      eval scope z = .ok p ∧ p.Holds d n := by
  have hsmall : n < 2 ^ 53 := by
    rw [Nat.abs_cast] at hn
    exact_mod_cast hn
  obtain ⟨v, hnumeral, hv⟩ := hw.exists_literal hsmall
  obtain ⟨p, hp, hplain⟩ := hv.normalize_whole hsmall
  cases hunit with
  | none =>
    refine ⟨literal v, p, fun power _ ↦ ?_, by rw [eval, hp], hplain.holds⟩
    rw [String.append_empty]
    exact hnumeral.enclosed power
  | base blanks b hblanks =>
    obtain ⟨u, hu, hdim, hexp, hmultiplier⟩ := resolve_symbol b
    obtain ⟨hnames, hends⟩ := baseRow_named b
    have heval : Registry.standard.eval (.name b.symbol) = .ok u := hu
    obtain ⟨q, hq, hholds⟩ := hplain.holds.withUnit hn hexp hmultiplier
    refine ⟨unary (.attach u (UnitExpr.name b.symbol).label) (literal v), q, fun power hpower ↦ ?_,
      ?_, hdim ▸ hholds⟩
    · have htext : (w ++ (String.ofList blanks ++ b.symbol)).toList =
          w.toList ++ (blanks ++ (baseRow b).chars) := by
        rw [String.toList_append, String.toList_append, String.toList_ofList, baseRow_chars]
      rw [htext]
      exact hnumeral.enclosed_attach hblanks hnames hends (baseRow_plan b) heval hpower
    · rw [eval_unary rfl, eval, hp, ok_bind]
      exact hq

/-- An integer is read with the unit behind it; a sign stands before both. -/
theorem WritesInt.exists_enclosed (scope : Scope Float) (hw : WritesInt w i) (hi : |i| < 2 ^ 53)
    (hunit : BaseUnitText unit d) :
    ∃ (z : Expr Float) (p : Quantity Float),
      EnclosedText Registry.standard 0 (w ++ unit).toList z ∧ eval scope z = .ok p ∧
      p.Holds d i := by
  cases hw with
  | plain hw =>
    obtain ⟨z, p, hread, hp, hholds⟩ := hw.exists_enclosed scope hi hunit
    exact ⟨z, p, hread 0 (by decide), hp, hholds⟩
  | @minus text n hw =>
    rw [abs_neg] at hi
    obtain ⟨z, p, hread, hp, hholds⟩ := hw.exists_enclosed scope hi hunit
    obtain ⟨q, hq, hneg⟩ := hholds.neg hi
    refine ⟨unary .neg z, q, ?_, ?_, hneg⟩
    · have htext : ("-" ++ text ++ unit).toList = '-' :: (text ++ unit).toList := by
        simp [String.toList_append]
      rw [htext]
      exact (hread signPower (by decide)).neg 0
    · rw [eval_unary rfl, hp, ok_bind]
      exact hq

/-- A function of one argument is applied to its value. -/
theorem eval_call {f : NamedFunction} (hf : f.IsRounding) {z : Expr Float} {p : Quantity Float}
    (hp : eval scope z = .ok p) : eval scope (call f.name [z]) = f.applyTo [p] := by
  have hname : NamedFunction.ofName? f.name = some f := by cases hf <;> rfl
  rw [eval, evalAll, hp, ok_bind, evalAll, ok_bind, pure_eq_ok, ok_bind, NamedFunction.callByName,
    hname]

/-- A call on an integer is evaluated; what it displays is an integer again. -/
theorem exists_rounded (scope : Scope Float) {f : NamedFunction} (hf : f.IsRounding)
    (hw : WritesInt w i) (hi : |i| ≤ 10 ^ 15) (hunit : BaseUnitText unit d) :
    ∃ (z : Expr Float) (q : Quantity Float) (k : Int),
      ofText Registry.standard (f.name ++ "(" ++ (w ++ unit) ++ ")") = .ok z ∧
      eval scope z = .ok q ∧ q.dim = d ∧ |k| ≤ 10 ^ 15 ∧
      Scalar.call f [rebuiltInt i] = .ok (k : Rat) ∧
      Scalar.displayText q.value = Scalar.displayText (k : Rat) ∧
      (k = i ↔ Scalar.Keeps f i (rebuiltInt i)) := by
  obtain ⟨z, p, hread, hp, hholds⟩ := hw.exists_enclosed scope (hi.trans_lt (by norm_num)) hunit
  obtain ⟨q, k, hq, hresult, hk, hexact, hkeeps⟩ := Quantity.applyTo_rounding hf hholds hi
  have hname : IsName f.name.toList := by
    cases hf <;> exact ⟨by decide, by decide, by decide⟩
  exact ⟨call f.name [z], q, k, ofText_call hname hread, (eval_call hf hp).trans hq, hresult.dim,
    hk, hexact, hresult.displayText_value hk, hkeeps⟩

end Values

/-! ## Written integers -/

section Written

open Binary64

/-- **Rounding of integers as they are written.**  An integer of at most fifteen digits, or the
number after them, with a base unit behind it or without, is rounded as `rebuiltInt` is, and keeps
its dimension.  What is displayed is the written integer for rounding to the nearest one always, for
rounding down exactly if `rebuiltInt` is not below it, and for rounding up exactly if `rebuiltInt`
is not above it. -/
theorem rounding_written (scope : Scope Float) {f : NamedFunction} (hf : f.IsRounding)
    {w unit : String} {i : Int} {d : Dimension} (hw : WritesInt w i) (hi : |i| ≤ 10 ^ 15)
    (hunit : BaseUnitText unit d) :
    ∃ (z : Expr Float) (q : Quantity Float) (k : Int),
      ofText Registry.standard (f.name ++ "(" ++ (w ++ unit) ++ ")") = .ok z ∧
      eval scope z = .ok q ∧ q.dim = d ∧
      Scalar.call f [rebuiltInt i] = .ok (k : Rat) ∧
      Scalar.displayText q.value = Scalar.displayText (k : Rat) ∧
      (Scalar.displayText q.value = Scalar.displayText (i : Rat) ↔
        Scalar.Keeps f i (rebuiltInt i)) := by
  obtain ⟨z, q, k, htext, hq, hdim, hk, hexact, hshown, hkeeps⟩ :=
    exists_rounded scope hf hw hi hunit
  refine ⟨z, q, k, htext, hq, hdim, hexact, hshown, ?_⟩
  rw [hshown, ← hkeeps]
  exact ⟨Scalar.displayText_intCast_injective hk hi, fun h ↦ by rw [h]⟩

/-- Minus three metres, rounded up. -/
theorem rounding_written_three_metres :
    WritesInt "-3" (-3) ∧ BaseUnitText " m" (.base .length) ∧
      ∃ (z : Expr Float) (q : Quantity Float),
        ofText Registry.standard "ceil(-3 m)" = .ok z ∧ eval ⟨[]⟩ z = .ok q ∧
        q.dim = .base .length ∧ Scalar.displayText q.value = "-3" := by
  have hw : WritesInt "-3" (-3) := .minus (writes_toString 3)
  have hunit : BaseUnitText " m" (.base .length) := .base [' '] .length
    (List.forall_mem_singleton.mpr (by decide))
  obtain ⟨z, q, -, htext, hq, hdim, -, -, hshown⟩ :=
    rounding_written ⟨[]⟩ .ceil hw (by norm_num) hunit
  have hkeeps : Scalar.Keeps .ceil (-3) (rebuiltInt (-3)) := by
    change rebuiltInt (-3) ≤ (-3 : Int)
    decide +kernel
  refine ⟨hw, hunit, z, q, htext, hq, hdim, ?_⟩
  rw [hshown.mpr hkeeps, Scalar.displayText_intCast (by norm_num)]
  rfl

/-- Not every integer is given back: `ceil(109)` is one hundred and ten, and `floor(113 m)` one
hundred and twelve metres. -/
theorem exists_integer_moved :
    (∃ (z : Expr Float) (q : Quantity Float), WritesInt "109" 109 ∧
      ofText Registry.standard "ceil(109)" = .ok z ∧ eval ⟨[]⟩ z = .ok q ∧
      Scalar.displayText q.value = "110") ∧
    ∃ (z : Expr Float) (q : Quantity Float), WritesInt "113" 113 ∧
      ofText Registry.standard "floor(113 m)" = .ok z ∧ eval ⟨[]⟩ z = .ok q ∧
      q.dim = .base .length ∧ Scalar.displayText q.value = "112" := by
  have hw : WritesInt "109" 109 := .plain (writes_toString 109)
  have hw' : WritesInt "113" 113 := .plain (writes_toString 113)
  have hunit : BaseUnitText " m" (.base .length) := .base [' '] .length
    (List.forall_mem_singleton.mpr (by decide))
  obtain ⟨z, q, k, htext, hq, -, -, hexact, hshown, -⟩ :=
    exists_rounded ⟨[]⟩ .ceil hw (by norm_num) .none
  obtain ⟨z', q', k', htext', hq', hdim, -, hexact', hshown', -⟩ :=
    exists_rounded ⟨[]⟩ .floor hw' (by norm_num) hunit
  have hk : (rebuiltInt 109).ceil = 110 := by decide +kernel
  have hk' : (rebuiltInt 113).floor = 112 := by decide +kernel
  have hcall : Scalar.call .ceil [rebuiltInt 109] = .ok ((rebuiltInt 109).ceil : Rat) := rfl
  have hcall' : Scalar.call .floor [rebuiltInt 113] = .ok ((rebuiltInt 113).floor : Rat) := rfl
  rw [hcall, hk, Except.ok.injEq] at hexact
  rw [hcall', hk', Except.ok.injEq] at hexact'
  rw [← hexact, Scalar.displayText_intCast (by norm_num)] at hshown
  rw [← hexact', Scalar.displayText_intCast (by norm_num)] at hshown'
  exact ⟨⟨z, q, hw, htext, hq, hshown⟩, z', q', hw', htext', hq', hdim, hshown'⟩

end Written

end Expr
end Mensura
