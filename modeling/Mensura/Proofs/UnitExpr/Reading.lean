import Mensura.Proofs.Text.Integer
import Mensura.Proofs.UnitExpr.Grammar

/-!
# Reading unit expressions along the grammar

A text is read exactly if it has a derivation (`Parses`), and then as the plan of that derivation.

* `Expression.read_tokens`: the tokens of a derivation are read as its plan.
* `expression_outcome`: tokens that are read have a derivation, and all others are declined.
* `ofText_outcome`: what reading a text comes to.  The text is declined with an error of the
  calculator if it has no derivation; only an integer with too many digits stops reading with a
  fault.
-/

set_option autoImplicit false

namespace Mensura
namespace UnitExpr

open Grammar

/-! ## Integers that are too long -/

/-- The decimal digits of a lexeme. -/
def Lexeme.digits (l : Lexeme) : Nat :=
  l.text.toList.countP Text.isDecimalDigit

/-- An integer with more digits than are read. -/
def Lexeme.isTooLong (l : Lexeme) : Bool :=
  l.kind = .integer && Text.longestInteger < l.digits

/-- Reads the integers among some lexemes, from left to right. -/
def checkIntegers : List Lexeme → Except Fault Unit
  | [] => .ok ()
  | l :: ls =>
    if l.kind = .integer then do
      let _ ← Text.integer l.text
      checkIntegers ls
    else checkIntegers ls

theorem checkIntegers_append (ls ms : List Lexeme) :
    checkIntegers (ls ++ ms) = checkIntegers ls >>= fun _ ↦ checkIntegers ms := by
  induction ls with
  | nil => rfl
  | cons l ls ih =>
    rw [List.cons_append, checkIntegers, checkIntegers, ih]
    split
    · rw [bind_assoc]
    · rfl

/-- An integer is read unless it is too long. -/
theorem integer_of_spells {l : Lexeme} (h : Spells .integer l.text.toList) :
    ∃ n, Text.integer l.text = Text.bounded l.digits n := by
  rw [← String.ofList_toList (s := l.text), Lexeme.digits]
  generalize l.text.toList = cs at h ⊢
  cases h with
  | digits hne h =>
    rw [Text.integer_digits hne h, List.countP_eq_length.mpr h]
    exact ⟨_, rfl⟩
  | @signed sign cs hsign hne h =>
    have hdigit : Text.isDecimalDigit sign = false := by
      rcases hsign with rfl | rfl <;> decide
    rw [Text.integer_signed hsign hne h, List.countP_cons_of_neg (by simp [hdigit]),
      List.countP_eq_length.mpr h]
    exact ⟨_, rfl⟩

/-- The lexemes of a text are spelled as their kinds are. -/
theorem Lexes.spells {cs : List Char} {ls : List Lexeme} (h : Lexes cs ls) :
    ∀ l ∈ ls, Spells l.kind l.text.toList := by
  induction h with
  | done => simp
  | cut _ hspells _ _ ih => exact List.forall_mem_cons.mpr ⟨by simpa using hspells, ih⟩

/-- Reading integers stops at the first one that is too long. -/
theorem checkIntegers_eq {ls : List Lexeme} (h : ∀ l ∈ ls, Spells l.kind l.text.toList) :
    checkIntegers ls = match ls.find? Lexeme.isTooLong with
      | none => .ok ()
      | some l => .error (.integerTooLong l.digits) := by
  induction ls with
  | nil => rfl
  | cons l ls ih =>
    obtain ⟨hl, hls⟩ := List.forall_mem_cons.mp h
    rw [checkIntegers, ih hls]
    split
    · next hkind =>
      obtain ⟨n, hn⟩ := integer_of_spells (hkind ▸ hl)
      rw [hn, Text.bounded]
      by_cases hlong : Text.longestInteger < l.digits
      · rw [List.find?_cons_of_pos (by simp [Lexeme.isTooLong, hkind, hlong]), if_pos hlong]
        rfl
      · rw [List.find?_cons_of_neg (by simp [Lexeme.isTooLong, hlong]), if_neg hlong]
        rfl
    · next hkind => rw [List.find?_cons_of_neg (by simp [Lexeme.isTooLong, hkind])]

namespace Grammar

/-! ## Plans and integers -/

theorem poweredPlan_check (base : UnitExpr) (power : Option Power) :
    (poweredPlan base power >>= fun _ ↦ .ok ()) = checkIntegers (powerLexemes power) := by
  cases power with
  | none => rfl
  | some p =>
    obtain ⟨sign, integer, inParentheses⟩ := p
    cases inParentheses <;>
      simp [poweredPlan, powerLexemes, Exponent.lexemes, checkIntegers, symbol]

mutual

/-- A plan comes to nothing exactly where an integer does. -/
theorem Term.plan_check : ∀ d : Term, (d.plan >>= fun _ ↦ .ok ()) = checkIntegers d.lexemes
  | .of base power => by
    rw [Term.plan, Term.lexemes, checkIntegers_append, ← base.plan_check, bind_assoc, bind_assoc]
    simp only [poweredPlan_check, ok_bind]

theorem Factor.plan_check : ∀ d : Factor, (d.plan >>= fun _ ↦ .ok ()) = checkIntegers d.lexemes
  | .name text => by simp [Factor.plan, Factor.lexemes, checkIntegers]
  | .group inner => by
    rw [Factor.plan, Factor.lexemes, checkIntegers, if_neg (by simp [symbol]),
      checkIntegers_append, ← inner.plan_check]
    simp [checkIntegers, symbol]

theorem Expression.plan_check :
    ∀ d : Expression, (d.plan >>= fun _ ↦ .ok ()) = checkIntegers d.lexemes
  | .of first more => by
    rw [Expression.plan, Expression.lexemes, checkIntegers_append, ← first.plan_check, bind_assoc,
      bind_assoc]
    simp only [more.planAfter_check, ok_bind]

theorem More.planAfter_check : ∀ (d : More) (left : UnitExpr),
    (d.planAfter left >>= fun _ ↦ .ok ()) = checkIntegers d.lexemes
  | .done, left => by simp [More.planAfter, More.lexemes, checkIntegers]
  | .next link term more, left => by
    have hlink : checkIntegers link.lexemes = .ok () := by
      cases link <;> simp [Link.lexemes, checkIntegers, symbol]
    rw [More.planAfter, More.lexemes, checkIntegers_append, checkIntegers_append, hlink, ok_bind,
      ← term.plan_check, bind_assoc, bind_assoc]
    simp only [more.planAfter_check, ok_bind]

end

end Grammar

/-! ## The first token -/

theorem atOperator_eq_true {op : String} {ts : List Token} :
    atOperator op ts = true ↔ (ts.map Token.lexeme).head? = some (symbol op) := by
  rcases ts with - | ⟨⟨kind, text, position⟩, ts⟩
  · simp [atOperator]
  · cases kind <;> simp [atOperator, Token.lexeme, symbol]

theorem startsTerm_eq_true {ts : List Token} : startsTerm ts = true ↔
    (∃ text, (ts.map Token.lexeme).head? = some ⟨.name, text⟩) ∨
      (ts.map Token.lexeme).head? = some (symbol "(") := by
  rcases ts with - | ⟨⟨kind, text, position⟩, ts⟩
  · simp [startsTerm, atOperator]
  · cases kind <;> simp [startsTerm, atOperator, Token.lexeme, symbol]

/-- Tokens with a lexeme in front. -/
theorem exists_cons_of_lexemes {ts : List Token} {l : Lexeme} {ls : List Lexeme}
    (h : ts.map Token.lexeme = l :: ls) :
    ∃ position us, ts = ⟨l.kind, l.text, position⟩ :: us ∧ us.map Token.lexeme = ls := by
  obtain ⟨t, us, rfl, rfl, hus⟩ := List.map_eq_cons_iff.mp h
  exact ⟨t.position, us, rfl, hus⟩

/-! ## Derivations are read -/

section Complete

variable {s : Source} {us rest : List Token}

theorem integer_eq {text : String} {position : Nat} :
    integer s (⟨.integer, text, position⟩ :: rest) =
      liftM (Text.integer text) >>= fun n ↦ .ok (n, rest) := by
  rw [integer]
  rfl

theorem closing_eq {position : Nat} :
    closing s (⟨.operator, ")", position⟩ :: rest) = .ok rest := by
  simp [closing, atOperator]

theorem exponent_eq {x : Exponent} (h : us.map Token.lexeme = x.lexemes) :
    exponent s (us ++ rest) = liftM (Text.integer x.integer) >>= fun n ↦ .ok (n, rest) := by
  obtain ⟨text, inParentheses⟩ := x
  cases inParentheses with
  | false =>
    obtain ⟨i, vs, rfl, hvs⟩ := exists_cons_of_lexemes h
    obtain rfl := List.map_eq_nil_iff.mp hvs
    rw [exponent, if_neg (by simp [atOperator])]
    exact integer_eq
  | true =>
    obtain ⟨i, vs, rfl, hvs⟩ := exists_cons_of_lexemes h
    obtain ⟨j, ws, rfl, hws⟩ := exists_cons_of_lexemes hvs
    obtain ⟨k, xs, rfl, hxs⟩ := exists_cons_of_lexemes hws
    obtain rfl := List.map_eq_nil_iff.mp hxs
    rw [exponent, if_pos (by simp [atOperator, symbol])]
    simp only [List.cons_append, List.nil_append, List.drop_succ_cons, List.drop_zero, integer_eq,
      bind_assoc, ok_bind, symbol, closing_eq, pure_eq_ok]

theorem powered_eq {base : UnitExpr} {power : Option Power}
    (h : us.map Token.lexeme = powerLexemes power) (hrest : EndsFactor (rest.map Token.lexeme)) :
    powered s base (us ++ rest) = leaving (poweredPlan base power) rest := by
  cases power with
  | none =>
    obtain rfl := List.map_eq_nil_iff.mp h
    rw [powered, List.nil_append, if_neg]
    · rfl
    · rw [Bool.or_eq_true, atOperator_eq_true, atOperator_eq_true]
      exact not_or.mpr ⟨hrest.caret, hrest.stars⟩
  | some p =>
    obtain ⟨sign, x⟩ := p
    obtain ⟨i, vs, rfl, hvs⟩ := exists_cons_of_lexemes h
    rw [powered, if_pos (by cases sign <;> simp [atOperator, symbol, PowerSign.text])]
    simp only [List.cons_append, List.drop_succ_cons, List.drop_zero, exponent_eq hvs, bind_assoc,
      ok_bind]
    rw [poweredPlan]
    cases Text.integer x.integer <;> rfl

/-- A term has tokens. -/
theorem Grammar.Term.length_pos {d : Term} (h : us.map Token.lexeme = d.lexemes) :
    1 ≤ us.length := by
  have hlength := congrArg List.length h
  rcases d.exists_cons with ⟨text, ls, hd⟩ | ⟨ls, hd⟩ <;> simp [hd] at hlength <;> omega

/-- The tokens of a term start one. -/
theorem Grammar.Term.starts {d : Term} (h : us.map Token.lexeme = d.lexemes) :
    startsTerm (us ++ rest) = true := by
  rw [startsTerm_eq_true]
  rcases d.exists_cons with ⟨text, ls, hd⟩ | ⟨ls, hd⟩ <;> rw [hd] at h <;>
    obtain ⟨i, vs, rfl, -⟩ := exists_cons_of_lexemes h
  · exact .inl ⟨text, rfl⟩
  · exact .inr rfl

/-- Behind a link and where a term starts, reading goes on with a term. -/
theorem moreTerms_link {link : Link} {fuel : Nat} {left : UnitExpr}
    (h : us.map Token.lexeme = link.lexemes) (hrest : startsTerm rest = true) :
    moreTerms s (fuel + 1) left (us ++ rest) =
      term s fuel rest >>= fun p ↦ moreTerms s fuel (link.join left p.1) p.2 := by
  cases link with
  | beside =>
    obtain rfl := List.map_eq_nil_iff.mp h
    have hop : ∀ op, op ≠ "(" → atOperator op rest = false := by
      intro op hop
      rw [← Bool.not_eq_true, atOperator_eq_true]
      intro hhead
      rcases startsTerm_eq_true.mp hrest with ⟨text, htext⟩ | hopen
      · simp [symbol, hhead] at htext
      · exact hop (by simpa [symbol, hhead] using hopen)
    rw [List.nil_append, moreTerms, hop _ (by decide), hop _ (by decide), hrest]
    rfl
  | times | per =>
    obtain ⟨i, vs, rfl, hvs⟩ := exists_cons_of_lexemes h
    obtain rfl := List.map_eq_nil_iff.mp hvs
    rw [moreTerms]
    rfl

mutual

theorem Grammar.Term.read_tokens : ∀ (d : Term) {fuel : Nat} {us rest : List Token},
    us.map Token.lexeme = d.lexemes → 2 * us.length ≤ fuel + 1 →
    EndsFactor (rest.map Token.lexeme) →
    term s fuel (us ++ rest) = leaving d.plan rest
  | .of (.name text) power, fuel, us, rest, h, _, hrest => by
    rw [Term.lexemes, Factor.lexemes] at h
    obtain ⟨i, vs, rfl, hvs⟩ := exists_cons_of_lexemes h
    rw [Term.plan, Factor.plan, ok_bind, List.cons_append, term]
    exact powered_eq hvs hrest
  | .of (.group inner) power, fuel, us, rest, h, hfuel, hrest => by
    rw [Term.lexemes, Factor.lexemes, List.cons_append, List.append_assoc] at h
    obtain ⟨i, ts, rfl, hts⟩ := exists_cons_of_lexemes h
    obtain ⟨vs, ws, rfl, hvs, hws⟩ := List.map_eq_append_iff.mp hts
    obtain ⟨j, xs, rfl, hxs⟩ := exists_cons_of_lexemes hws
    simp only [List.length_cons, List.length_append] at hfuel
    obtain ⟨fuel, rfl⟩ := Nat.exists_eq_add_of_le' (show 1 ≤ fuel by omega)
    have hinner : expression s fuel (vs ++ ⟨.operator, ")", j⟩ :: (xs ++ rest)) =
        leaving inner.plan (⟨.operator, ")", j⟩ :: (xs ++ rest)) :=
      inner.read_tokens hvs (by omega) (endsExpression_closing _)
    simp only [symbol, List.cons_append, List.append_assoc, term, atOperator, decide_true, if_true,
      List.drop_succ_cons, List.drop_zero, hinner, leaving_bind, closing_eq, ok_bind,
      powered_eq hxs hrest]
    rw [Term.plan, Factor.plan, leaving_of_bind]

theorem Grammar.Expression.read_tokens : ∀ (d : Expression) {fuel : Nat} {us rest : List Token},
    us.map Token.lexeme = d.lexemes → 2 * us.length ≤ fuel →
    EndsExpression (rest.map Token.lexeme) →
    expression s fuel (us ++ rest) = leaving d.plan rest
  | .of first more, fuel, us, rest, h, hfuel, hrest => by
    rw [Expression.lexemes] at h
    obtain ⟨vs, ws, rfl, hvs, hws⟩ := List.map_eq_append_iff.mp h
    have hpos : 1 ≤ vs.length := Term.length_pos hvs
    rw [List.length_append] at hfuel
    obtain ⟨fuel, rfl⟩ := Nat.exists_eq_add_of_le' (show 1 ≤ fuel by omega)
    have hends : EndsFactor ((ws ++ rest).map Token.lexeme) := by
      rw [List.map_append, hws]
      exact more.endsFactor hrest
    rw [List.append_assoc, expression, first.read_tokens hvs (by omega) hends, leaving_bind,
      Expression.plan, leaving_of_bind]
    simp only [more.read_tokens hws (show 2 * ws.length ≤ fuel by omega) hrest]

theorem Grammar.More.read_tokens : ∀ (d : More) {fuel : Nat} {left : UnitExpr}
    {us rest : List Token}, us.map Token.lexeme = d.lexemes → 2 * us.length ≤ fuel →
    EndsExpression (rest.map Token.lexeme) →
    moreTerms s fuel left (us ++ rest) = leaving (d.planAfter left) rest
  | .done, fuel, left, us, rest, h, _, hrest => by
    rw [More.lexemes] at h
    obtain rfl := List.map_eq_nil_iff.mp h
    cases fuel with
    | zero => rfl
    | succ fuel =>
      rw [moreTerms, List.nil_append, if_neg (mt atOperator_eq_true.mp hrest.times),
        if_neg (mt atOperator_eq_true.mp hrest.per), if_neg]
      · rfl
      · rw [startsTerm_eq_true]
        exact not_or.mpr ⟨not_exists.mpr hrest.name, hrest.group⟩
  | .next link d more, fuel, left, us, rest, h, hfuel, hrest => by
    rw [More.lexemes] at h
    obtain ⟨ls, ts, rfl, hls, hts⟩ := List.map_eq_append_iff.mp h
    obtain ⟨vs, ws, rfl, hvs, hws⟩ := List.map_eq_append_iff.mp hts
    have hpos : 1 ≤ vs.length := Term.length_pos hvs
    simp only [List.length_append] at hfuel
    obtain ⟨fuel, rfl⟩ := Nat.exists_eq_add_of_le' (show 1 ≤ fuel by omega)
    have hends : EndsFactor ((ws ++ rest).map Token.lexeme) := by
      rw [List.map_append, hws]
      exact more.endsFactor hrest
    have hterm : term s fuel (vs ++ (ws ++ rest)) = leaving d.plan (ws ++ rest) :=
      d.read_tokens hvs (by omega) hends
    have hmore : ∀ left, moreTerms s fuel left (ws ++ rest) = leaving (more.planAfter left) rest :=
      fun _ ↦ more.read_tokens hws (by omega) hrest
    rw [More.planAfter, leaving_of_bind]
    rw [List.append_assoc, List.append_assoc, moreTerms_link hls (Term.starts hvs), hterm,
      leaving_bind]
    simp only [hmore]

end

end Complete

/-! ## What is read has a derivation -/

/-- Why a text is not read: it is no unit, or an integer among the tokens cannot be read. -/
def Declines (text : String) (ts : List Token) : Failure → Prop
  | .calc e => ∃ fault, e = .badUnit text fault
  | .fault f => ∃ t ∈ ts, t.kind = .integer ∧ Text.integer t.text = .error f

section Sound

variable {s : Source} {δ δ' β β' : Type} {lexemes : δ → List Lexeme} {plan : δ → Except Fault β}
  {lexemes' : δ' → List Lexeme} {plan' : δ' → Except Fault β'} {us vs ts rest : List Token}

/-- Reading answers what a derivation stands for whose lexemes are in front, and leaves the tokens
behind it; or it declines. -/
def Outcome (s : Source) (lexemes : δ → List Lexeme) (plan : δ → Except Fault β)
    (ts : List Token) : Result (β × List Token) → Prop
  | .ok (b, rest) => ∃ d us, ts = us ++ rest ∧ us.map Token.lexeme = lexemes d ∧ plan d = .ok b
  | .error e => Declines s.text ts e

theorem Declines.append {text : String} {e : Failure} (h : Declines text ts e) :
    Declines text (us ++ ts) e := by
  match e, h with
  | .calc _, h => exact h
  | .fault _, ⟨t, ht, h⟩ => exact ⟨t, List.mem_append_right us ht, h⟩

theorem expected_outcome (what : String) (ts' : List Token) :
    Outcome s lexemes plan ts (s.expected what ts') := by
  cases ts' with
  | nil => exact ⟨_, rfl⟩
  | cons t ts' => exact ⟨_, rfl⟩

theorem expected_bind {α α' : Type} (what : String) (k : α → Result α') :
    (s.expected what ts >>= k) = s.expected what ts := by
  cases ts <;> rfl

/-- Reading that goes on behind a part of the grammar, and behind tokens in front of it. -/
theorem Outcome.bind (us : List Token) {r : Result (β × List Token)}
    {k : β × List Token → Result (β' × List Token)} (hr : Outcome s lexemes plan ts r)
    (hk : ∀ d b vs rest, ts = vs ++ rest → vs.map Token.lexeme = lexemes d → plan d = .ok b →
      Outcome s lexemes' plan' (us ++ ts) (k (b, rest))) :
    Outcome s lexemes' plan' (us ++ ts) (r >>= k) := by
  cases r with
  | error e => exact hr.append
  | ok p =>
    obtain ⟨d, vs, hts, hlexemes, hplan⟩ := hr
    exact hk d p.1 vs p.2 hts hlexemes hplan

/-- What is read behind some tokens belongs to a larger derivation. -/
theorem Outcome.behind (us : List Token) {r : Result (β × List Token)}
    {plan' : δ' → Except Fault β} (h : Outcome s lexemes plan ts r) (f : δ → δ')
    (hlexemes : ∀ d, lexemes' (f d) = us.map Token.lexeme ++ lexemes d)
    (hplan : ∀ d, plan' (f d) = plan d) : Outcome s lexemes' plan' (us ++ ts) r := by
  cases r with
  | error e => exact h.append
  | ok p =>
    obtain ⟨d, vs, rfl, hvs, hd⟩ := h
    exact ⟨f d, us ++ vs, (List.append_assoc us vs p.2).symm,
      by rw [List.map_append, hvs, hlexemes], by rw [hplan, hd]⟩

theorem exists_of_atOperator {op : String} (h : atOperator op ts = true) :
    ∃ i rest, ts = ⟨.operator, op, i⟩ :: rest := by
  obtain ⟨l, hl⟩ : ∃ ls, ts.map Token.lexeme = symbol op :: ls :=
    List.head?_eq_some_iff.mp (atOperator_eq_true.mp h)
  obtain ⟨i, rest, hts, -⟩ := exists_cons_of_lexemes hl
  exact ⟨i, rest, hts⟩

theorem closing_outcome {k : List Token → Result (β × List Token)}
    (hk : ∀ i rest, ts = ⟨.operator, ")", i⟩ :: rest →
      Outcome s lexemes plan (us ++ ts) (k rest)) :
    Outcome s lexemes plan (us ++ ts) (closing s ts >>= k) := by
  rw [closing]
  split
  · next h =>
    obtain ⟨i, rest, rfl⟩ := exists_of_atOperator h
    exact hk i rest rfl
  · rw [expected_bind]
    exact expected_outcome _ _

theorem integer_outcome :
    Outcome s (fun text ↦ [⟨.integer, text⟩]) Text.integer ts (integer s ts) := by
  unfold integer
  split
  · next text position rest =>
    cases hn : Text.integer text with
    | error f => exact ⟨_, List.mem_cons_self, rfl, hn⟩
    | ok n => exact ⟨text, [⟨.integer, text, position⟩], rfl, rfl, hn⟩
  · exact expected_outcome _ _

theorem exponent_outcome :
    Outcome s Exponent.lexemes (fun x ↦ Text.integer x.integer) ts (exponent s ts) := by
  rw [exponent]
  split
  · next h =>
    obtain ⟨i, us, rfl⟩ := exists_of_atOperator h
    refine integer_outcome.bind [_] fun text n vs rest hus hvs hn ↦ ?_
    obtain rfl : us = vs ++ rest := hus
    rw [← List.append_assoc]
    refine closing_outcome fun j ws hws ↦ ?_
    subst hws
    exact ⟨⟨text, true⟩, ⟨.operator, "(", i⟩ :: (vs ++ [⟨.operator, ")", j⟩]), by simp,
      by simp [hvs, Exponent.lexemes, Token.lexeme, symbol], hn⟩
  · exact integer_outcome.behind [] (fun text ↦ ⟨text, false⟩) (fun _ ↦ rfl) fun _ ↦ rfl

theorem powered_outcome (base : UnitExpr) :
    Outcome s powerLexemes (poweredPlan base) ts (powered s base ts) := by
  have hsign : ∀ sign : PowerSign, atOperator sign.text ts = true →
      Outcome s powerLexemes (poweredPlan base) ts
        (exponent s (ts.drop 1) >>= fun x ↦ .ok (.pow base x.1, x.2)) := by
    intro sign h
    obtain ⟨i, us, rfl⟩ := exists_of_atOperator h
    refine exponent_outcome.bind [_] fun x n vs rest hus hvs hn ↦ ?_
    obtain rfl : us = vs ++ rest := hus
    exact ⟨some ⟨sign, x⟩, ⟨.operator, sign.text, i⟩ :: vs, rfl,
      by simp [hvs, powerLexemes, Token.lexeme, symbol], by rw [poweredPlan, hn]; rfl⟩
  rw [powered]
  split
  · next h =>
    rcases Bool.or_eq_true .. ▸ h with h | h
    · exact hsign .caret h
    · exact hsign .stars h
  · exact ⟨none, [], rfl, rfl, rfl⟩

/-- What the three functions of the descent answer with some fuel. -/
structure Descends (s : Source) (fuel : Nat) : Prop where
  term : ∀ ts, Outcome s Term.lexemes Term.plan ts (term s fuel ts)
  expression : ∀ ts, Outcome s Expression.lexemes Expression.plan ts (expression s fuel ts)
  moreTerms : ∀ left ts,
    Outcome s More.lexemes (fun d ↦ d.planAfter left) ts (moreTerms s fuel left ts)

/-- A factor that is read is read as a term, with the power behind it. -/
theorem factor_outcome (us : List Token) {d : Factor} {base : UnitExpr}
    (h : us.map Token.lexeme = d.lexemes) (hd : d.plan = .ok base) :
    Outcome s Term.lexemes Term.plan (us ++ ts) (powered s base ts) :=
  (powered_outcome base).behind us (fun power ↦ .of d power)
    (fun power ↦ by rw [h, Term.lexemes]) fun power ↦ by rw [Term.plan, hd, ok_bind]

theorem name_outcome {text : String} {position : Nat} :
    Outcome s Term.lexemes Term.plan (⟨.name, text, position⟩ :: ts)
      (powered s (.name text) ts) :=
  factor_outcome [_] (d := .name text) (by rw [Factor.lexemes]; rfl) (by rw [Factor.plan])

theorem done_outcome {left : UnitExpr} :
    Outcome s More.lexemes (fun d ↦ d.planAfter left) ts (.ok (left, ts)) :=
  ⟨.done, [], rfl, by rw [More.lexemes]; rfl, by simp [More.planAfter]⟩

/-- A term behind a link, and what follows. -/
theorem link_outcome {fuel : Nat} (h : Descends s fuel) (us : List Token) (link : Link)
    (left : UnitExpr) (hus : us.map Token.lexeme = link.lexemes) :
    Outcome s More.lexemes (fun d ↦ d.planAfter left) (us ++ ts)
      (term s fuel ts >>= fun p ↦ moreTerms s fuel (link.join left p.1) p.2) := by
  refine (h.term ts).bind us fun d e vs rest hts hvs hd ↦ ?_
  subst hts
  rw [← List.append_assoc]
  refine (h.moreTerms (link.join left e) rest).behind (us ++ vs) (fun more ↦ .next link d more)
    (fun more ↦ ?_) fun more ↦ ?_
  · rw [More.lexemes, List.map_append, hus, hvs, List.append_assoc]
  · rw [More.planAfter, hd, ok_bind]

/-- **Everything that is read has a derivation.** -/
theorem descends (fuel : Nat) : Descends s fuel := by
  induction fuel with
  | zero =>
    refine ⟨fun ts ↦ ?_, fun ts ↦ expected_outcome _ _, fun left ts ↦ ?_⟩
    · unfold term
      split
      · exact name_outcome
      · exact expected_outcome _ _
      · contradiction
    · exact done_outcome
  | succ fuel ih =>
    refine ⟨fun ts ↦ ?_, fun ts ↦ ?_, fun left ts ↦ ?_⟩
    · unfold term
      split
      · exact name_outcome
      · contradiction
      · next n hfuel _ =>
        obtain rfl := Nat.succ.inj hfuel
        split
        · next h =>
          obtain ⟨i, us, rfl⟩ := exists_of_atOperator h
          refine (ih.expression us).bind [_] fun inner e vs rest hus hvs hinner ↦ ?_
          subst hus
          rw [← List.append_assoc]
          refine closing_outcome fun j ws hws ↦ ?_
          subst hws
          rw [List.append_cons]
          refine factor_outcome _ (d := .group inner) ?_ ?_
          · rw [Factor.lexemes]
            simp [hvs, Token.lexeme, symbol]
          · rw [Factor.plan, hinner]
        · exact expected_outcome _ _
    · rw [expression]
      refine (ih.term ts).bind [] fun first e vs rest hts hvs hfirst ↦ ?_
      subst hts
      refine (ih.moreTerms e rest).behind vs (.of first) (fun more ↦ ?_) fun more ↦ ?_
      · rw [Expression.lexemes, hvs]
      · rw [Expression.plan, hfirst, ok_bind]
    · rw [moreTerms]
      split
      · next h =>
        obtain ⟨i, us, rfl⟩ := exists_of_atOperator h
        exact link_outcome ih [_] .times left rfl
      split
      · next h =>
        obtain ⟨i, us, rfl⟩ := exists_of_atOperator h
        exact link_outcome ih [_] .per left rfl
      split
      · exact link_outcome ih [] .beside left rfl
      · exact done_outcome

end Sound

/-! ## Texts -/

/-- A text has a derivation: it holds no disallowed character and lexes into the lexemes of the
derivation. -/
structure Parses (text : String) (d : Expression) : Prop where
  allowed : ∀ c ∈ text.toList, c ∉ disallowed
  lexes : Lexes text.toList d.lexemes

/-- A class of characters without a disallowed one. -/
theorem not_mem_disallowed {p : Char → Bool} (hp : disallowed.all (fun d ↦ !p d) = true)
    ⦃c : Char⦄ (hc : p c = true) : c ∉ disallowed := by
  intro hmem
  have := List.all_eq_true.mp hp c hmem
  simp [hc] at this

theorem Spells.allowed {kind : TokenKind} {piece : List Char} (h : Spells kind piece) :
    ∀ c ∈ piece, c ∉ disallowed := by
  have hword := not_mem_disallowed (p := Text.isWordChar) (by decide)
  have hdecimal := not_mem_disallowed (p := Text.isDecimalDigit) (by decide)
  intro c hc
  cases h with
  | operator h =>
    have hall : operators.all (fun o ↦ o.all fun d ↦ !disallowed.contains d) = true := by decide
    simpa using List.all_eq_true.mp (List.all_eq_true.mp hall _ h) c hc
  | digits _ h => exact hdecimal (h c hc)
  | signed hsign _ h =>
    rcases List.mem_cons.mp hc with rfl | hc
    · rcases hsign with rfl | rfl <;> decide
    · exact hdecimal (h c hc)
  | name hstart h =>
    rcases List.mem_cons.mp hc with rfl | hc
    · refine hword ?_
      simp only [startsName, Bool.and_eq_true] at hstart
      simp [Text.isWordChar, hstart.1]
    · exact hword (h c hc)

/-- A text that lexes holds no disallowed character. -/
theorem Lexes.allowed {cs : List Char} {ls : List Lexeme} (h : Lexes cs ls) :
    ∀ c ∈ cs, c ∉ disallowed := by
  have hblank := not_mem_disallowed (p := Text.isBlank) (by decide)
  induction h with
  | done hcs => exact fun c hc ↦ hblank (hcs c hc)
  | cut hblanks hspells _ _ ih =>
    intro c hc
    rcases List.mem_append.mp hc with hc | hc
    · exact hblank (hblanks c hc)
    rcases List.mem_append.mp hc with hc | hc
    · exact hspells.allowed c hc
    · exact ih c hc

/-- A text has a derivation if it lexes into its lexemes. -/
theorem Parses.of_lexes {text : String} {d : Expression} (h : Lexes text.toList d.lexemes) :
    Parses text d :=
  ⟨h.allowed, h⟩

/-- A text has one derivation at most. -/
theorem Parses.unique {text : String} {d e : Expression} (hd : Parses text d)
    (he : Parses text e) : d = e :=
  Expression.lexemes_injective (hd.lexes.unique he.lexes)

/-- A text with a derivation is read as its plan. -/
theorem Parses.ofText_eq {text : String} {d : Expression} (h : Parses text d) :
    ofText text = liftM d.plan := by
  obtain ⟨ts, hts, hlexemes⟩ := exists_tokens_iff.mpr h.lexes
  have hread : expression ⟨text⟩ (fuelFor ts) (ts ++ []) = leaving d.plan [] :=
    d.read_tokens hlexemes (by rw [fuelFor]; omega) endsExpression_nil
  have hallowed : text.toList.any disallowed.contains = false := by
    simpa [List.any_eq_false] using h.allowed
  rw [List.append_nil] at hread
  rw [ofText, if_neg (by simp [hallowed]), hts, ok_bind, ofTokens, hread]
  cases d.plan <;> rfl

/-- What cannot be cut into tokens is no unit. -/
theorem scan_error {text : String} {taken start position : Nat} {cs : List Char} {e : Failure}
    (h : scan text taken start position cs = .error e) :
    ∃ fault, e = .calc (.badUnit text fault) := by
  induction cs generalizing taken start position e with
  | nil => simp [scan] at h
  | cons c rest ih =>
    cases taken with
    | succ taken =>
      rw [scan] at h
      exact ih h
    | zero =>
      rw [scan] at h
      split at h
      · exact ih h
      · split at h
        · rcases bind_eq_error.mp h with h | ⟨_, _, h⟩
          · exact ih h
          · cases h
        · cases h
          exact ⟨_, rfl⟩

/-- A text without a derivation is declined. -/
theorem ofText_declines {text : String} (h : ∀ d, ¬Parses text d) :
    (∃ fault, ofText text = .error (.calc (.badUnit text fault))) ∨
      ∃ ls, Lexes text.toList ls ∧ ∃ l ∈ ls, l.isTooLong = true ∧
        ofText text = .error (.fault (.integerTooLong l.digits)) := by
  rw [ofText]
  split
  · exact .inl ⟨_, rfl⟩
  next hallowed =>
  cases hts : tokens text with
  | error e =>
    obtain ⟨fault, rfl⟩ := scan_error hts
    exact .inl ⟨fault, rfl⟩
  | ok ts =>
    have hlexes : Lexes text.toList (ts.map Token.lexeme) := exists_tokens_iff.mp ⟨ts, hts, rfl⟩
    have hread := (descends (s := ⟨text⟩) (fuelFor ts)).expression ts
    rw [ok_bind, ofTokens]
    generalize expression ⟨text⟩ (fuelFor ts) ts = r at hread
    match r, hread with
    | .error (.calc e), ⟨fault, hfault⟩ => exact .inl ⟨fault, by rw [hfault]; rfl⟩
    | .error (.fault f), ⟨t, ht, hkind, hinteger⟩ =>
      have hmem : t.lexeme ∈ ts.map Token.lexeme := List.mem_map_of_mem ht
      obtain ⟨n, hn⟩ := integer_of_spells (l := t.lexeme) (hkind ▸ hlexes.spells _ hmem)
      rw [show t.lexeme.text = t.text from rfl, hinteger, Text.bounded] at hn
      split at hn
      · next hlong =>
        refine .inr ⟨_, hlexes, t.lexeme, hmem, ?_, ?_⟩
        · simpa [Lexeme.isTooLong] using ⟨hkind, hlong⟩
        · rw [Except.error.inj hn]
          rfl
      · cases hn
    | .ok (e, []), ⟨d, us, hus, hlexemes, _⟩ =>
      refine absurd ⟨?_, ?_⟩ (h d)
      · simpa [List.any_eq_false] using hallowed
      · rwa [hus, List.append_nil, hlexemes] at hlexes
    | .ok (e, t :: rest), _ => exact .inl ⟨_, rfl⟩

/-- **What reading a text comes to.**  The text is read if it has a derivation, which is the only
one, and as the plan of that derivation; any other text is no unit.  Integers with too many digits
are the one exception: they stop reading with a fault, where the text has a derivation and where it
has none. -/
theorem ofText_outcome (text : String) :
    (∀ d, Parses text d → (∀ e, Parses text e → e = d) ∧
      match d.lexemes.find? Lexeme.isTooLong with
      | none => ∃ plan, d.plan = .ok plan ∧ ofText text = .ok plan
      | some l => ofText text = .error (.fault (.integerTooLong l.digits))) ∧
    ((∀ d, ¬Parses text d) →
      (∃ fault, ofText text = .error (.calc (.badUnit text fault))) ∨
        ∃ ls, Lexes text.toList ls ∧ ∃ l ∈ ls, l.isTooLong = true ∧
          ofText text = .error (.fault (.integerTooLong l.digits))) := by
  refine ⟨fun d hd ↦ ⟨fun e he ↦ he.unique hd, ?_⟩, ofText_declines⟩
  have hplan := d.plan_check
  rw [checkIntegers_eq hd.lexes.spells] at hplan
  rw [hd.ofText_eq]
  cases hfind : d.lexemes.find? Lexeme.isTooLong with
  | none =>
    rw [hfind] at hplan
    obtain ⟨plan, hplan, -⟩ := bind_eq_ok.mp hplan
    exact ⟨plan, hplan, by rw [hplan]; rfl⟩
  | some l =>
    rw [hfind] at hplan
    rcases bind_eq_error.mp hplan with hplan | ⟨_, _, hplan⟩
    · rw [hplan]
      rfl
    · cases hplan

/-- The derivation of `m/s^2`. -/
def acceleration : Expression :=
  .of (.of (.name "m") none) (.next .per (.of (.name "s") (some ⟨.caret, ⟨"2", false⟩⟩)) .done)

theorem parses_acceleration : Parses "m/s^2" acceleration :=
  .of_lexes <| .of_lexeme? ['m'] (by decide +kernel) <| .of_lexeme? ['/'] (by decide) <|
    .of_lexeme? ['s'] (by decide +kernel) <| .of_lexeme? ['^'] (by decide) <|
    .of_lexeme? ['2'] (by decide) <| .done (by simp)

theorem ofText_outcome_acceleration :
    Parses "m/s^2" acceleration ∧
      ofText "m/s^2" = .ok (.div (.name "m") (.pow (.name "s") 2)) := by
  obtain ⟨-, h⟩ := (ofText_outcome "m/s^2").1 acceleration parses_acceleration
  have hfind : acceleration.lexemes.find? Lexeme.isTooLong = none := by decide +kernel
  have hplan : acceleration.plan = .ok (.div (.name "m") (.pow (.name "s") 2)) := by
    rfl
  rw [hfind] at h
  obtain ⟨plan, hd, htext⟩ := h
  rw [hplan] at hd
  exact ⟨parses_acceleration, by rw [htext, Except.ok.inj hd]⟩

/-! ## An integer that is too long -/

/-- A two behind zeros. -/
def paddedTwo (n : Nat) : List Char :=
  List.replicate n '0' ++ ['2']

/-- A square metre, with zeros before the two. -/
def paddedSquare (n : Nat) : String :=
  String.ofList ('m' :: '^' :: paddedTwo n)

/-- Its derivation. -/
def paddedSquareDerivation (n : Nat) : Expression :=
  .of (.of (.name "m") (some ⟨.caret, ⟨String.ofList (paddedTwo n), false⟩⟩)) .done

theorem paddedTwo_ne_nil (n : Nat) : paddedTwo n ≠ [] := by
  simp [paddedTwo]

theorem isDecimalDigit_of_mem_paddedTwo {n : Nat} :
    ∀ c ∈ paddedTwo n, Text.isDecimalDigit c = true := by
  intro c hc
  rcases List.mem_append.mp hc with hc | hc
  · rw [List.eq_of_mem_replicate hc]
    decide
  · rw [List.mem_singleton.mp hc]
    decide

theorem parses_paddedSquare (n : Nat) : Parses (paddedSquare n) (paddedSquareDerivation n) := by
  have hdigits : lexeme? (paddedTwo n ++ []) = some (.integer, (paddedTwo n).length) := by
    refine lexeme?_eq_some (.digits (paddedTwo_ne_nil n) isDecimalDigit_of_mem_paddedTwo) ?_
    intro kind longer h _
    simpa using h.length_le
  refine .of_lexes ?_
  rw [paddedSquare, String.toList_ofList, ← List.append_nil (paddedTwo n)]
  exact .of_lexeme? ['m'] rfl <| .of_lexeme? ['^'] rfl <| .of_lexeme? _ hdigits <| .done (by simp)

theorem integer_paddedTwo (n : Nat) : ∃ value,
    Text.integer (String.ofList (paddedTwo n)) = Text.bounded (n + 1) value :=
  ⟨_, by rw [Text.integer_digits (paddedTwo_ne_nil n) isDecimalDigit_of_mem_paddedTwo, paddedTwo,
    List.length_append, List.length_replicate, List.length_singleton]⟩

/-- **A derivation is not enough**: a square metre with 4300 zeros before the two has one, and
stops reading with a fault. -/
theorem exists_derivation_with_fault :
    Parses (paddedSquare 4300) (paddedSquareDerivation 4300) ∧
      ofText (paddedSquare 4300) = .error (.fault (.integerTooLong 4301)) := by
  refine ⟨parses_paddedSquare 4300, ?_⟩
  rw [(parses_paddedSquare 4300).ofText_eq]
  obtain ⟨value, hinteger⟩ := integer_paddedTwo 4300
  rw [Text.bounded, if_pos (by decide)] at hinteger
  simp only [paddedSquareDerivation, Expression.plan, Term.plan, Factor.plan, poweredPlan, ok_bind,
    hinteger, error_bind, liftM_error]

end UnitExpr
end Mensura
