import Mensura.Proofs.Expr.UnitRow

/-!
# The tokens of a unit behind a value

Where a unit stands in an expression, it takes as many tokens as make one unit expression:

    unit      unit term | unit "*" term | unit "/" term | term
    term      name | name "^" exponent
    exponent  integer | "(" integer ")"

A name is no command; an asterisk or a slash has no blank before it; and a name with a parenthesis
directly behind it is a call, which ends the unit before it.

* `Spells`: a unit expression and its tokens, by these rules alone; the tokens spell no other one
  (`Spells.unique`).
* `exists_longestRun`: the reader takes the longest run of tokens that spells a unit expression, and
  answers what it spells.
-/

set_option autoImplicit false

namespace Mensura
namespace Expr

open UnitExpr.Grammar (Link)

/-! ## Spelling -/

/-- A number without point and exponent. -/
structure IsDigits (n : Int) (t : Token) : Prop where
  kind : t.kind = .number
  digits : t.text.toList.all Text.isDigit = true
  value : Text.integer t.text = .ok n

/-- The tokens of an integer. -/
inductive IsInteger : Int → List Token → Prop
  | plain {n : Int} {t : Token} : IsDigits n t → IsInteger n [t]
  | plus {n : Int} {s t : Token} : s.isSymbol "+" = true → IsDigits n t → IsInteger n [s, t]
  | minus {n : Int} {s t : Token} : s.isSymbol "-" = true → IsDigits n t → IsInteger (-n) [s, t]

/-- The tokens of an exponent. -/
inductive IsExponent : Int → List Token → Prop
  | bare {n : Int} {ts : List Token} : IsInteger n ts → IsExponent n ts
  | enclosed {n : Int} {o c : Token} {ts : List Token} :
    o.isSymbol "(" = true → IsInteger n ts → c.isSymbol ")" = true →
    IsExponent n (o :: (ts ++ [c]))

/-- A name that is no command. -/
structure IsPlainName (t : Token) : Prop where
  kind : t.kind = .name
  plain : t.text.toList.head? ≠ some '\\'

/-- The tokens of a name with its exponent. -/
inductive IsTerm : UnitExpr → List Token → Prop
  | name {t : Token} : IsPlainName t → IsTerm (.name t.text) [t]
  | power {n : Int} {t p : Token} {ts : List Token} :
    IsPlainName t → p.isSymbol "^" = true → IsExponent n ts →
    IsTerm (.pow (.name t.text) n) (t :: p :: ts)

/-- The tokens of a unit expression, which is built up from the left. -/
inductive Spells : UnitExpr → List Token → Prop
  | term {plan : UnitExpr} {run : List Token} : IsTerm plan run → Spells plan run
  | join {left right : UnitExpr} {run more : List Token} (link : Link) (column : Nat) :
    Spells left run → IsTerm right more →
    Spells (link.join left right) (run ++ (linkTokens link column ++ more))

/-- A name at the end is not called by what follows. -/
def NotCalled (run rest : List Token) : Prop :=
  ∀ t ∈ run.getLast?, t.kind = .name → opensCall rest = false

/-- Some tokens are a unit in front of others. -/
structure UnitRun (run rest : List Token) : Prop where
  spelled : ∃ plan, Spells plan run
  notCalled : NotCalled run rest

/-- They are so, and no more of them are. -/
structure LongestRun (run rest : List Token) : Prop extends UnitRun run rest where
  longest : ∀ {run' rest' : List Token}, run' ++ rest' = run ++ rest → UnitRun run' rest' →
    run'.length ≤ run.length

/-! ## Integers and exponents -/

theorem IsInteger.signedInteger {n : Int} {ts : List Token} (h : IsInteger n ts)
    (rest : List Token) : signedInteger (ts ++ rest) = .ok (n, rest) := by
  cases h with
  | plain ht =>
    simp [Expr.signedInteger, peek_cons, Token.isSymbol, ht.kind, ht.digits, ht.value]
  | plus hs ht =>
    obtain ⟨hkind, htext⟩ := Token.isSymbol_iff.mp hs
    simp [Expr.signedInteger, peek_cons, Token.isSymbol, hkind, htext, ht.kind, ht.digits, ht.value]
  | minus hs ht =>
    obtain ⟨hkind, htext⟩ := Token.isSymbol_iff.mp hs
    simp [Expr.signedInteger, peek_cons, Token.isSymbol, hkind, htext, ht.kind, ht.digits, ht.value]

/-- What is read as digits, behind a sign or not. -/
theorem exists_isDigits {negative : Bool} {n : Int} {ts rest : List Token}
    (h : (if (peek ts).kind = .number && (peek ts).text.toList.all Text.isDigit then do
        let n ← Text.integer (peek ts).text
        return (if negative then -n else n, ts.drop 1)
      else fail (.syntaxAt (.expectedUnitExponent (peek ts).shown) (peek ts).column) :
        Result (Int × List Token)) = .ok (n, rest)) :
    ∃ t m, ts = t :: rest ∧ IsDigits m t ∧ n = if negative then -m else m := by
  split at h
  · next hdigits =>
    obtain ⟨hkind, hall⟩ : (peek ts).kind = .number ∧ (peek ts).text.toList.all Text.isDigit = true := by
      simpa only [Bool.and_eq_true, decide_eq_true_eq] using hdigits
    obtain ⟨m, hm, h⟩ := bind_eq_ok.mp h
    obtain ⟨rfl, rfl⟩ := by simpa using h
    cases ts with
    | nil => cases hkind
    | cons t ts => exact ⟨t, m, rfl, ⟨hkind, hall, liftM_eq_ok.mp hm⟩, rfl⟩
  · exact absurd h fail_ne_ok

theorem exists_isInteger {n : Int} {ts rest : List Token} (h : signedInteger ts = .ok (n, rest)) :
    ∃ run, ts = run ++ rest ∧ IsInteger n run := by
  rw [signedInteger] at h
  by_cases hminus : (peek ts).isSymbol "-" = true
  · obtain ⟨s, ts, rfl, hs⟩ := exists_cons_of_isSymbol hminus
    rw [hminus] at h
    obtain ⟨t, m, rfl, ht, rfl⟩ := exists_isDigits h
    exact ⟨[s, t], rfl, .minus hs ht⟩
  rw [Bool.eq_false_iff.mpr hminus] at h
  by_cases hplus : (peek ts).isSymbol "+" = true
  · obtain ⟨s, ts, rfl, hs⟩ := exists_cons_of_isSymbol hplus
    rw [hplus] at h
    obtain ⟨t, m, rfl, ht, rfl⟩ := exists_isDigits h
    exact ⟨[s, t], rfl, .plus hs ht⟩
  · rw [Bool.eq_false_iff.mpr hplus] at h
    obtain ⟨t, m, rfl, ht, rfl⟩ := exists_isDigits h
    exact ⟨[t], rfl, .plain ht⟩

theorem IsInteger.not_opens {n : Int} {ts : List Token} (h : IsInteger n ts) (rest : List Token) :
    (peek (ts ++ rest)).isSymbol "(" = false := by
  cases h with
  | plain ht => simp [peek_cons, Token.isSymbol, ht.kind]
  | plus hs _ | minus hs _ => simp [peek_cons, Token.isSymbol, (Token.isSymbol_iff.mp hs).2]

theorem IsExponent.unitExponent {n : Int} {ts : List Token} (h : IsExponent n ts)
    (rest : List Token) : unitExponent (ts ++ rest) = .ok (n, rest) := by
  cases h with
  | bare hn => rw [Expr.unitExponent, if_neg (by simp [hn.not_opens]), hn.signedInteger]
  | enclosed ho hn hc =>
    rw [Expr.unitExponent, List.cons_append, peek_cons, if_pos ho, List.drop_one, List.tail_cons,
      List.append_assoc, hn.signedInteger, ok_bind]
    simp [expect, peek_cons, hc]

theorem exists_isExponent {n : Int} {ts rest : List Token} (h : unitExponent ts = .ok (n, rest)) :
    ∃ run, ts = run ++ rest ∧ IsExponent n run := by
  rw [unitExponent] at h
  split at h
  · next ho =>
    obtain ⟨o, ts, rfl, ho⟩ := exists_cons_of_isSymbol ho
    obtain ⟨⟨m, mid⟩, hm, h⟩ := bind_eq_ok.mp h
    obtain ⟨after, hafter, h⟩ := bind_eq_ok.mp h
    obtain ⟨rfl, rfl⟩ : m = n ∧ after = rest := by simpa using h
    obtain ⟨hc, rfl⟩ := expect_eq_ok.mp hafter
    obtain ⟨c, mid, rfl, hc⟩ := exists_cons_of_isSymbol hc
    obtain ⟨run, hrun, hinteger⟩ := exists_isInteger hm
    obtain rfl : ts = run ++ c :: mid := hrun
    exact ⟨o :: (run ++ [c]), by simp, .enclosed ho hinteger hc⟩
  · obtain ⟨run, rfl, hinteger⟩ := exists_isInteger h
    exact ⟨run, rfl, .bare hinteger⟩

/-! ## Terms -/

/-- Only what stands last can be called. -/
theorem notCalled_append {run more rest : List Token} (h : more ≠ []) :
    NotCalled (run ++ more) rest ↔ NotCalled more rest := by
  rw [NotCalled, List.getLast?_append_of_ne_nil _ h, NotCalled]

theorem IsExponent.last_ne_name {n : Int} {ts : List Token} (h : IsExponent n ts) :
    ∃ t, ts.getLast? = some t ∧ t.kind ≠ .name := by
  cases h with
  | bare hn =>
    cases hn with
    | plain ht | plus _ ht | minus _ ht => exact ⟨_, rfl, by simp [ht.kind]⟩
  | enclosed _ _ hc =>
    refine ⟨_, by rw [← List.cons_append, List.getLast?_concat], ?_⟩
    simp [(Token.isSymbol_iff.mp hc).1]

/-- A term starts with its name. -/
theorem IsTerm.exists_cons {plan : UnitExpr} {ts : List Token} (h : IsTerm plan ts) :
    ∃ t rest, ts = t :: rest ∧ IsPlainName t := by
  cases h with
  | name ht => exact ⟨_, _, rfl, ht⟩
  | power ht _ _ => exact ⟨_, _, rfl, ht⟩

theorem IsTerm.startsUnit {plan : UnitExpr} {ts rest : List Token} (h : IsTerm plan ts)
    (hcall : NotCalled ts rest) : startsUnit (ts ++ rest) = true := by
  cases h with
  | @name t ht =>
    have hopens : opensCall rest = false := hcall t rfl ht.kind
    simp [Expr.startsUnit, ht.kind, ht.plain, hopens]
  | power ht hp _ =>
    simp [Expr.startsUnit, ht.kind, ht.plain, opensCall_of_symbol hp (by decide)]

/-- A term is read in full, unless it is a name in front of a power. -/
theorem IsTerm.unitTerm {plan : UnitExpr} {ts : List Token} (h : IsTerm plan ts)
    (rest : List Token) : unitTerm (ts ++ rest) = .ok (plan, rest) ∨
      (peek rest).isSymbol "^" = true ∧ (ts ++ rest).drop 1 = rest := by
  cases h with
  | @name t ht =>
    by_cases hp : (peek rest).isSymbol "^" = true
    · exact .inr ⟨hp, rfl⟩
    · left
      simp [Expr.unitTerm, peek_cons, hp]
  | power ht hp hn =>
    left
    simp [Expr.unitTerm, peek_cons, hp, hn.unitExponent]

/-- What is read as a term is one, and is not called. -/
theorem exists_isTerm {plan : UnitExpr} {ts rest : List Token} (hs : startsUnit ts = true)
    (h : unitTerm ts = .ok (plan, rest)) :
    ∃ run, ts = run ++ rest ∧ IsTerm plan run ∧ NotCalled run rest := by
  obtain ⟨t, ts, rfl⟩ := List.exists_cons_of_ne_nil (startsUnit_ne_nil hs)
  obtain ⟨⟨hkind, hplain⟩, hcall⟩ : (t.kind = .name ∧ t.text.toList.head? ≠ some '\\') ∧
      opensCall ts = false := by
    simpa [Expr.startsUnit] using hs
  rw [Expr.unitTerm] at h
  dsimp only at h
  split at h
  · next hp =>
    obtain ⟨p, ts, rfl, hp⟩ := exists_cons_of_isSymbol hp
    obtain ⟨⟨n, mid⟩, hn, h⟩ := bind_eq_ok.mp h
    obtain ⟨rfl, rfl⟩ := by simpa using h
    obtain ⟨run, hrun, hexponent⟩ := exists_isExponent hn
    obtain rfl : ts = run ++ mid := hrun
    refine ⟨t :: p :: run, rfl, .power ⟨hkind, hplain⟩ hp hexponent, ?_⟩
    obtain ⟨last, hlast, hname⟩ := hexponent.last_ne_name
    have hne : run ≠ [] := by
      rintro rfl
      cases hlast
    have hcall : NotCalled run mid := fun u hu hkind ↦ by
      rw [hlast] at hu
      exact absurd hkind (Option.some.inj hu ▸ hname)
    exact (notCalled_append hne : NotCalled ([t, p] ++ run) mid ↔ _).mpr hcall
  · obtain ⟨rfl, rfl⟩ := by simpa using h
    refine ⟨[t], rfl, .name ⟨hkind, hplain⟩, ?_⟩
    rintro _ - -
    exact hcall

/-! ## Runs -/

theorem IsTerm.ne_nil {plan : UnitExpr} {ts : List Token} (h : IsTerm plan ts) : ts ≠ [] := by
  obtain ⟨t, rest, rfl, -⟩ := h.exists_cons
  exact List.cons_ne_nil t rest

/-- A run starts with a name. -/
theorem Spells.exists_cons {plan : UnitExpr} {run : List Token} (h : Spells plan run) :
    ∃ t rest, run = t :: rest ∧ IsPlainName t := by
  induction h with
  | term h => exact h.exists_cons
  | join link column _ _ ih =>
    obtain ⟨t, rest, rfl, ht⟩ := ih
    exact ⟨t, _, rfl, ht⟩

/-- Where a unit goes on with a symbol, the symbol links a term to it. -/
theorem exists_link_of_continuesUnit {link : Link} {ts : List Token}
    (h : (link = .times ∧ continuesUnit "*" ts = true) ∨
      (link = .per ∧ continuesUnit "/" ts = true)) :
    ∃ column more, ts = linkTokens link column ++ more ∧ startsUnit more = true := by
  have hsymbol {s : String} (h : continuesUnit s ts = true) :
      ∃ column more, ts = ⟨.symbol, s, column, false⟩ :: more ∧ startsUnit more = true := by
    simp only [continuesUnit, Bool.and_eq_true, Bool.not_eq_true'] at h
    obtain ⟨⟨hs, hspaced⟩, hstarts⟩ := h
    obtain ⟨⟨kind, text, column, spaced⟩, more, rfl, hs⟩ := exists_cons_of_isSymbol hs
    obtain ⟨rfl, rfl⟩ := Token.isSymbol_iff.mp hs
    obtain rfl : spaced = false := hspaced
    exact ⟨column, more, rfl, hstarts⟩
  rcases h with ⟨rfl, h⟩ | ⟨rfl, h⟩ <;> exact hsymbol h

/-- **What the reader takes is a run** that goes on from one already taken. -/
theorem exists_run_of_moreUnits {fuel : Nat} {left plan : UnitExpr} {run ts rest : List Token}
    (hrun : Spells left run) (hcall : NotCalled run ts)
    (h : moreUnits fuel left ts = .ok (plan, rest)) :
    ∃ run', run ++ ts = run' ++ rest ∧ Spells plan run' ∧ NotCalled run' rest := by
  induction fuel generalizing left run ts with
  | zero =>
    obtain ⟨rfl, rfl⟩ := by simpa [moreUnits] using h
    exact ⟨run, rfl, hrun, hcall⟩
  | succ fuel ih =>
    -- every way to go on is a link and a term behind it
    have hlink (link : Link) (column : Nat) {more : List Token}
        (hts : ts = linkTokens link column ++ more) (hstarts : startsUnit more = true) :
        ∃ run', run ++ ts = run' ++ rest ∧ Spells plan run' ∧ NotCalled run' rest := by
      subst hts
      rw [moreUnits_link hstarts] at h
      obtain ⟨⟨right, mid⟩, hterm, hmore⟩ := bind_eq_ok.mp h
      obtain ⟨term, rfl, hright, hnot⟩ := exists_isTerm hstarts hterm
      have hcalled : NotCalled (run ++ (linkTokens link column ++ term)) mid := by
        rw [← List.append_assoc]
        exact (notCalled_append hright.ne_nil).mpr hnot
      obtain ⟨run', hrun', hspells, hend⟩ := ih (hrun.join link column hright) hcalled hmore
      exact ⟨run', by rw [← hrun']; simp, hspells, hend⟩
    by_cases hbeside : startsUnit ts = true
    · exact hlink .beside 0 rfl hbeside
    by_cases htimes : continuesUnit "*" ts = true
    · obtain ⟨column, more, hts, hstarts⟩ := exists_link_of_continuesUnit (.inl ⟨rfl, htimes⟩)
      exact hlink _ column hts hstarts
    by_cases hper : continuesUnit "/" ts = true
    · obtain ⟨column, more, hts, hstarts⟩ := exists_link_of_continuesUnit (.inr ⟨rfl, hper⟩)
      exact hlink _ column hts hstarts
    · rw [moreUnits, if_neg hbeside, if_neg htimes, if_neg hper] at h
      obtain ⟨rfl, rfl⟩ := by simpa using h
      exact ⟨run, rfl, hrun, hcall⟩

/-- The reader of a unit comes to the end of a run and goes on from there, or reads a power that
the run leaves out. -/
def Reaches (plan : UnitExpr) (run rest : List Token) : Prop :=
  (∃ fuel, rest.length ≤ fuel ∧ unitExpr (run ++ rest) = moreUnits fuel plan rest) ∨
    (peek rest).isSymbol "^" = true ∧
      ∀ plan' rest', unitExpr (run ++ rest) = .ok (plan', rest') → rest'.length ≤ rest.length

theorem IsTerm.reaches {plan : UnitExpr} {run : List Token} (h : IsTerm plan run)
    (rest : List Token) : Reaches plan run rest := by
  rcases h.unitTerm rest with hread | ⟨hpower, hdrop⟩
  · refine .inl ⟨(run ++ rest).length, by simp, ?_⟩
    rw [unitExpr, hread, ok_bind]
  · refine .inr ⟨hpower, fun plan' rest' h' ↦ ?_⟩
    rw [← hdrop]
    exact (unitExpr_suffix h').length_le

/-- **The reader takes at least every run** in front of some tokens. -/
theorem Spells.reaches {plan : UnitExpr} {run : List Token} (h : Spells plan run) :
    ∀ rest, NotCalled run rest → Reaches plan run rest := by
  induction h with
  | term hterm => exact fun rest _ ↦ hterm.reaches rest
  | @join left right run more link column _ hright ih =>
    intro rest hcall
    rw [← List.append_assoc, notCalled_append hright.ne_nil] at hcall
    have hstarts : startsUnit (more ++ rest) = true := hright.startsUnit hcall
    have hends : EndsName (linkTokens link column ++ (more ++ rest)) := endsName_link hstarts
    have hlength : 0 < more.length := List.length_pos_iff.mpr hright.ne_nil
    rw [Reaches, List.append_assoc, List.append_assoc]
    rcases ih _ fun _ _ _ ↦ hends.call with ⟨fuel, hfuel, hread⟩ | ⟨hpower, -⟩
    · simp only [List.length_append] at hfuel
      obtain ⟨fuel, rfl⟩ : ∃ n, fuel = n + 1 := ⟨fuel - 1, by omega⟩
      rw [hread, moreUnits_link hstarts]
      rcases hright.unitTerm rest with hterm | ⟨hpower, hdrop⟩
      · exact .inl ⟨fuel, by omega, by rw [hterm, ok_bind]⟩
      · refine .inr ⟨hpower, fun plan' rest' h ↦ ?_⟩
        obtain ⟨⟨right', mid⟩, hterm, hmore⟩ := bind_eq_ok.mp h
        rw [← hdrop]
        exact ((moreUnits_suffix hmore).trans (unitTerm_suffix hterm)).length_le
    · rw [hends.power] at hpower
      cases hpower

/-- On its own, a run is read in full. -/
theorem Spells.unitExpr_eq {plan : UnitExpr} {run : List Token} (h : Spells plan run) :
    unitExpr run = .ok (plan, []) := by
  rcases h.reaches [] fun _ _ _ ↦ rfl with ⟨fuel, -, hread⟩ | ⟨hpower, -⟩
  · rw [← List.append_nil run, hread]
    cases fuel <;> rfl
  · cases hpower

/-- **A run spells one unit expression.** -/
theorem Spells.unique {plan plan' : UnitExpr} {run : List Token} (h : Spells plan run)
    (h' : Spells plan' run) : plan = plan' := by
  have hread := h.unitExpr_eq.symm.trans h'.unitExpr_eq
  simpa using hread

/-- What the reader leaves over is no longer than what a run leaves over. -/
theorem Reaches.length_le {plan plan' : UnitExpr} {run rest rest' : List Token}
    (h : Reaches plan run rest) (hread : unitExpr (run ++ rest) = .ok (plan', rest')) :
    rest'.length ≤ rest.length := by
  rcases h with ⟨fuel, -, hreach⟩ | ⟨-, hover⟩
  · exact (moreUnits_suffix (hreach ▸ hread)).length_le
  · exact hover _ _ hread

/-- **A unit behind a value takes the longest run of tokens that spells it.** -/
theorem exists_longestRun {plan : UnitExpr} {ts rest : List Token} (hs : startsUnit ts = true)
    (h : unitExpr ts = .ok (plan, rest)) :
    ∃ run, ts = run ++ rest ∧ Spells plan run ∧ LongestRun run rest := by
  have hread := h
  rw [unitExpr] at h
  obtain ⟨⟨first, mid⟩, hfirst, hmore⟩ := bind_eq_ok.mp h
  obtain ⟨term, rfl, hterm, hcall⟩ := exists_isTerm hs hfirst
  obtain ⟨run, hrun, hspells, hend⟩ := exists_run_of_moreUnits (.term hterm) hcall hmore
  refine ⟨run, hrun, hspells, ⟨⟨plan, hspells⟩, hend⟩, fun {run' rest'} heq hunit ↦ ?_⟩
  obtain ⟨plan', hspells'⟩ := hunit.spelled
  have hle := (hspells'.reaches rest' hunit.notCalled).length_le (by rw [heq, ← hrun]; exact hread)
  have hlength := congrArg List.length heq
  simp only [List.length_append] at hlength
  omega

end Expr
end Mensura
