import Mathlib.Data.List.Forall2
import Mensura.Proofs.Expr.Blank
import Mensura.Proofs.Expr.UnitRun
import Mensura.Scalar.Binary64

/-!
# Trees in the order of the text

Read in order — a function before its arguments, a minus before its operand, an operator between
its operands, a unit behind the value it is attached to — the tree of an expression says what its
tokens say.  Only parentheses, commas and each plus in front of a value are lost.

* `inOrder`: a tree in order.
* `Content`: what is left of the tokens of a text, told by a walk that knows nothing of how tightly
  operators bind.
* `Derives.reads`: each part of an expression keeps what its tokens say, whatever follows.
* `ofText_inOrder`: so does every text that is accepted.
-/

set_option autoImplicit false

namespace Mensura

/-- Among the tokens of a text the stop is the last, and the only one. -/
theorem Token.exists_stop_of_scan {taken column : Nat} {spaced : Bool} {cs : List Char}
    {ts : List Token} (h : scan taken column spaced cs = .ok ts) :
    ∃ body stop, ts = body ++ [stop] ∧ stop.kind = .stop ∧ ∀ t ∈ body, t.kind ≠ .stop := by
  induction cs generalizing taken column spaced ts with
  | nil =>
    obtain rfl : [⟨.stop, "", column, spaced⟩] = ts := by simpa [scan] using h
    exact ⟨[], _, rfl, rfl, List.forall_mem_nil _⟩
  | cons c cs ih =>
    cases taken with
    | succ taken => exact ih (by rwa [scan] at h)
    | zero =>
      rw [scan] at h
      split at h
      · exact ih h
      split at h
      · next kind text length hnext =>
        obtain ⟨tokens, htokens, h⟩ := bind_eq_ok.mp h
        obtain rfl := Except.ok.inj h
        obtain ⟨body, stop, rfl, hstop, hbody⟩ := ih htokens
        refine ⟨⟨kind, text, column, spaced⟩ :: body, stop, rfl, hstop, ?_⟩
        exact List.forall_mem_cons.mpr ⟨(next?_le hnext).1, hbody⟩
      · cases h

/-- Behind the stop there is nothing. -/
theorem Token.stop_of_suffix {text : String} {ts rest : List Token}
    (h : Token.ofText text = .ok ts) (hsuffix : rest <:+ ts)
    (hstop : (Expr.peek rest).kind = .stop) : ∀ t ∈ rest, t.kind = .stop := by
  obtain ⟨body, stop, rfl, hkind, hbody⟩ := exists_stop_of_scan h
  rcases List.suffix_concat_iff.mp hsuffix with rfl | ⟨init, rfl, hinit⟩
  · exact List.forall_mem_nil _
  cases init with
  | nil => simpa using hkind
  | cons t init => exact absurd hstop (hbody t (hinit.subset List.mem_cons_self))

namespace Expr

/-! ## Trees -/

section Trees

variable {α : Type} [Scalar α]

/-- What a tree says at one place. -/
inductive Item (α : Type) [Scalar α]
  | number (value : Quantity α)
  | name (text : String)
  | operator (op : Operator α)
  | unit (u : PhysUnit α) (label : String)

/-- An operator among its operands: a minus before, a unit behind, all others between them. -/
def among : Operator α → List (List (Item α)) → List (Item α)
  | .neg, [a] => .operator .neg :: a
  | .attach u label, [a] => a ++ [.unit u label]
  | op, [a, b] => a ++ .operator op :: b
  | _, operands => operands.flatten

mutual

/-- A tree in order. -/
def inOrder : Expr α → List (Item α)
  | literal value => [.number value]
  | ident name => [.name name]
  | call function args => .name function :: (inOrderEach args).flatten
  | apply op operands => among op (inOrderEach operands)

/-- Each tree of a list in order. -/
def inOrderEach : List (Expr α) → List (List (Item α))
  | [] => []
  | e :: rest => inOrder e :: inOrderEach rest

end

theorem inOrder_neg (e : Expr α) : (unary .neg e).inOrder = .operator .neg :: e.inOrder := by
  simp [unary, inOrder, inOrderEach, among]

theorem inOrder_attach (u : PhysUnit α) (label : String) (e : Expr α) :
    (unary (.attach u label) e).inOrder = e.inOrder ++ [.unit u label] := by
  simp [unary, inOrder, inOrderEach, among]

theorem inOrder_binary (op : Operator α) (a b : Expr α) :
    (binary op a b).inOrder = a.inOrder ++ .operator op :: b.inOrder := by
  cases op <;> simp [binary, inOrder, inOrderEach, among]

end Trees

/-! ## Tokens -/

/-- A piece of what is left of the tokens of a text. -/
inductive Piece
  /-- A number or a name. -/
  | value (t : Token)
  /-- A minus before a value. -/
  | minus (t : Token)
  /-- An operator between two values. -/
  | operator (t : Token)
  /-- All tokens of a unit. -/
  | unit (run : List Token)

/-- The symbols that stand between two values. -/
def betweenValues : List String := ["+", "-", "*", "/", "^"]

/-- Walking over tokens, directly behind a value or not, these pieces are left.  What is dropped
are parentheses, commas, and each plus that has no value before it. -/
inductive Content : (behind : Bool) → List Token → List Piece → Prop
  | stop {ts : List Token} : (∀ t ∈ ts, t.kind = .stop) → Content true ts []
  | number {t : Token} {ts : List Token} {ps : List Piece} :
    t.kind = .number → Content true ts ps → Content false (t :: ts) (.value t :: ps)
  /-- The name of a function is no value yet. -/
  | name {t : Token} {ts : List Token} {ps : List Piece} :
    t.kind = .name → Content (!opensCall ts) ts ps → Content false (t :: ts) (.value t :: ps)
  | opens {t : Token} {ts : List Token} {ps : List Piece} :
    t.isSymbol "(" = true → Content false ts ps → Content false (t :: ts) ps
  | plus {t : Token} {ts : List Token} {ps : List Piece} :
    t.isSymbol "+" = true → Content false ts ps → Content false (t :: ts) ps
  | minus {t : Token} {ts : List Token} {ps : List Piece} :
    t.isSymbol "-" = true → Content false ts ps → Content false (t :: ts) (.minus t :: ps)
  | closes {behind : Bool} {t : Token} {ts : List Token} {ps : List Piece} :
    t.isSymbol ")" = true → Content true ts ps → Content behind (t :: ts) ps
  | comma {t : Token} {ts : List Token} {ps : List Piece} :
    t.isSymbol "," = true → Content false ts ps → Content true (t :: ts) ps
  | operator {t : Token} {ts : List Token} {ps : List Piece} :
    t.kind = .symbol → t.text ∈ betweenValues → Content false ts ps →
    Content true (t :: ts) (.operator t :: ps)
  | unit {ts run rest : List Token} {ps : List Piece} :
    ts = run ++ rest → LongestRun run rest → Content true rest ps →
    Content true ts (.unit run :: ps)

/-- A unit starts with a name. -/
theorem UnitRun.exists_cons {run rest : List Token} (h : UnitRun run rest) :
    ∃ t more, run = t :: more ∧ t.kind = .name := by
  obtain ⟨plan, hspells⟩ := h.spelled
  obtain ⟨t, more, hrun, ht⟩ := hspells.exists_cons
  exact ⟨t, more, hrun, ht.kind⟩

theorem UnitRun.head_ne_symbol {t : Token} {ts run rest : List Token} (h : UnitRun run rest)
    (hts : t :: ts = run ++ rest) : t.kind ≠ .symbol := by
  obtain ⟨u, more, rfl, hu⟩ := h.exists_cons
  rw [(List.cons.inj hts).1, hu]
  decide

theorem UnitRun.not_stop {ts run rest : List Token} (h : UnitRun run rest) (hts : ts = run ++ rest) :
    ¬∀ t ∈ ts, t.kind = .stop := by
  obtain ⟨u, more, rfl, hu⟩ := h.exists_cons
  intro hstop
  have hkind := hstop u (hts ▸ List.mem_cons_self)
  rw [hu] at hkind
  cases hkind

/-- There is one longest unit. -/
theorem LongestRun.unique {run run' rest rest' : List Token} (h : LongestRun run rest)
    (h' : LongestRun run' rest') (heq : run ++ rest = run' ++ rest') :
    run = run' ∧ rest = rest' :=
  List.append_inj heq (Nat.le_antisymm (h'.longest heq h.toUnitRun)
    (h.longest heq.symm h'.toUnitRun))

/-- **The pieces are determined by the tokens.** -/
theorem Content.unique {behind : Bool} {ts : List Token} {ps : List Piece}
    (h : Content behind ts ps) : ∀ ps', Content behind ts ps' → ps = ps' := by
  -- at each place, kind and text of the next token leave one way to go on
  induction h with
  | stop hstop =>
    intro ps' h'
    cases h' with
    | stop => rfl
    | unit heq hrun _ => exact absurd hstop (hrun.not_stop heq)
    | _ => simp_all [Token.isSymbol]
  | number hkind _ ih =>
    intro ps' h'
    cases h' with
    | number _ h' => rw [ih _ h']
    | _ => simp_all [Token.isSymbol]
  | name hkind _ ih =>
    intro ps' h'
    cases h' with
    | name _ h' => rw [ih _ h']
    | _ => simp_all [Token.isSymbol]
  | opens ht _ ih =>
    intro ps' h'
    cases h' with
    | opens _ h' => exact ih _ h'
    | _ => simp_all [Token.isSymbol]
  | plus ht _ ih =>
    intro ps' h'
    cases h' with
    | plus _ h' => exact ih _ h'
    | _ => simp_all [Token.isSymbol]
  | minus ht _ ih =>
    intro ps' h'
    cases h' with
    | minus _ h' => rw [ih _ h']
    | _ => simp_all [Token.isSymbol]
  | closes ht _ ih =>
    intro ps' h'
    cases h' with
    | closes _ h' => exact ih _ h'
    | unit heq hrun _ => exact absurd (Token.isSymbol_iff.mp ht).1 (hrun.head_ne_symbol heq)
    | _ => simp_all [Token.isSymbol, betweenValues]
  | comma ht _ ih =>
    intro ps' h'
    cases h' with
    | comma _ h' => exact ih _ h'
    | unit heq hrun _ => exact absurd (Token.isSymbol_iff.mp ht).1 (hrun.head_ne_symbol heq)
    | _ => simp_all [Token.isSymbol, betweenValues]
  | operator hkind htext _ ih =>
    intro ps' h'
    cases h' with
    | operator _ _ h' => rw [ih _ h']
    | unit heq hrun _ => exact absurd hkind (hrun.head_ne_symbol heq)
    | _ => simp_all [Token.isSymbol, betweenValues]
  | @unit ts run rest ps heq hrun _ ih =>
    intro ps' h'
    cases h' with
    | unit heq' hrun' h' =>
      obtain ⟨rfl, rfl⟩ := hrun.unique hrun' (heq.symm.trans heq')
      rw [ih _ h']
    | stop hstop => exact absurd hstop (hrun.not_stop heq)
    | closes ht _ | comma ht _ =>
      exact absurd (Token.isSymbol_iff.mp ht).1 (hrun.head_ne_symbol heq)
    | operator hkind _ _ => exact absurd hkind (hrun.head_ne_symbol heq)

variable {α : Type} [Scalar α]

/-- What a tree says at one place is what a piece of the tokens says. -/
inductive Stands (r : Registry α) : Item α → Piece → Prop
  | number {t : Token} {value : Quantity α} :
    t.kind = .number → literalOf t = .ok (literal value) → Stands r (.number value) (.value t)
  | name {t : Token} : t.kind = .name → Stands r (.name t.text) (.value t)
  | minus {t : Token} : Stands r (.operator .neg) (.minus t)
  | operator {t : Token} {op : InfixOperator α} :
    InfixOperator.ofToken? t = some op → Stands r (.operator op.op) (.operator t)
  | unit {plan : UnitExpr} {u : PhysUnit α} {run : List Token} :
    Spells plan run → r.eval plan = .ok u → Stands r (.unit u plan.label) (.unit run)

/-! ## What the reader keeps -/

variable {r : Registry α}

/-- The tokens of a part, whatever follows them, leave what the part says. -/
def Part.Reads (r : Registry α) (part : Part α) (ts rest : List Token) : Prop :=
  ∀ qs, Content true rest qs →
    match part with
    | .expression _ e | .operand e =>
      ∃ ps, Content false ts (ps ++ qs) ∧ List.Forall₂ (Stands r) e.inOrder ps
    | .climb _ left e =>
      ∃ items ps, e.inOrder = left.inOrder ++ items ∧ Content true ts (ps ++ qs) ∧
        List.Forall₂ (Stands r) items ps
    | .arguments es =>
      ∃ ps, Content false ts (ps ++ qs) ∧ List.Forall₂ (Stands r) (inOrderEach es).flatten ps

theorem mem_betweenValues {t : Token} {op : InfixOperator α}
    (h : InfixOperator.ofToken? t = some op) : t.kind = .symbol ∧ t.text ∈ betweenValues := by
  have hsymbol {s : String} (hs : t.isSymbol s = true) (hmem : s ∈ betweenValues) :
      t.kind = .symbol ∧ t.text ∈ betweenValues := by
    obtain ⟨hkind, rfl⟩ := Token.isSymbol_iff.mp hs
    exact ⟨hkind, hmem⟩
  rw [InfixOperator.ofToken?] at h
  split_ifs at h with hs hs hs hs hs <;> exact hsymbol hs (by decide)

theorem isSymbol_of_opensCall {t : Token} {ts : List Token} (h : opensCall (t :: ts) = true) :
    t.isSymbol "(" = true :=
  (Bool.and_eq_true _ _ ▸ h).1

/-- **The reader loses and reorders nothing.** -/
theorem Derives.reads {part : Part α} {ts rest : List Token} (h : Derives r part ts rest) :
    part.Reads r ts rest := by
  induction h with
  | expression _ _ ih₁ ih₂ =>
    intro qs hqs
    obtain ⟨items, ps₂, hitems, hcontent₂, hstands₂⟩ := ih₂ qs hqs
    obtain ⟨ps₁, hcontent₁, hstands₁⟩ := ih₁ _ hcontent₂
    refine ⟨ps₁ ++ ps₂, by rwa [List.append_assoc], ?_⟩
    rw [hitems]
    exact List.rel_append hstands₁ hstands₂
  | @number t e rest hkind hvalue =>
    intro qs hqs
    obtain ⟨value, rfl⟩ := exists_literal_of_literalOf hvalue
    refine ⟨[.value t], .number hkind hqs, ?_⟩
    rw [inOrder]
    exact .cons (.number hkind hvalue) .nil
  | @ident t rest hkind hopens =>
    intro qs hqs
    refine ⟨[.value t], .name hkind (by rwa [hopens]), ?_⟩
    rw [inOrder]
    exact .cons (.name hkind) .nil
  | @emptyCall t o c rest hkind hopens hc =>
    intro qs hqs
    refine ⟨[.value t], .name hkind ?_, ?_⟩
    · rw [hopens]
      exact .opens (isSymbol_of_opensCall hopens) (.closes hc hqs)
    · rw [inOrder]
      exact .cons (.name hkind) .nil
  | @call t o c es ts rest hkind hopens hc _ hclose ih =>
    intro qs hqs
    obtain ⟨ps, hcontent, hstands⟩ := ih qs (.closes hclose hqs)
    refine ⟨.value t :: ps, .name hkind ?_, ?_⟩
    · rw [hopens]
      exact .opens (isSymbol_of_opensCall hopens) hcontent
    · rw [inOrder]
      exact .cons (.name hkind) hstands
  | paren ho _ hclose ih =>
    intro qs hqs
    obtain ⟨ps, hcontent, hstands⟩ := ih qs (.closes hclose hqs)
    exact ⟨ps, .opens ho hcontent, hstands⟩
  | @minus t e ts rest ht _ ih =>
    intro qs hqs
    obtain ⟨ps, hcontent, hstands⟩ := ih qs hqs
    refine ⟨.minus t :: ps, .minus ht hcontent, ?_⟩
    rw [inOrder_neg]
    exact .cons .minus hstands
  | plus ht _ ih =>
    intro qs hqs
    obtain ⟨ps, hcontent, hstands⟩ := ih qs hqs
    exact ⟨ps, .plus ht hcontent, hstands⟩
  | @attach power left e plan u ts mid rest hs _ hu hr _ ih =>
    intro qs hqs
    obtain ⟨items, ps, hitems, hcontent, hstands⟩ := ih qs hqs
    obtain ⟨run, rfl, hspells, hlongest⟩ := exists_longestRun hs hu
    refine ⟨.unit u plan.label :: items, .unit run :: ps, ?_, .unit rfl hlongest hcontent,
      .cons (.unit hspells hr) hstands⟩
    rw [hitems, inOrder_attach, List.append_assoc]
    rfl
  | @operator power left right e op t ts mid rest _ hop _ _ _ ih₁ ih₂ =>
    intro qs hqs
    obtain ⟨items, ps₂, hitems, hcontent₂, hstands₂⟩ := ih₂ qs hqs
    obtain ⟨ps₁, hcontent₁, hstands₁⟩ := ih₁ _ hcontent₂
    obtain ⟨hkind, htext⟩ := mem_betweenValues hop
    refine ⟨.operator op.op :: right.inOrder ++ items, .operator t :: ps₁ ++ ps₂, ?_, ?_, ?_⟩
    · rw [hitems, inOrder_binary, List.append_assoc]
    · rw [List.append_assoc]
      exact .operator hkind htext hcontent₁
    · exact .cons (.operator hop) (List.rel_append hstands₁ hstands₂)
  | settled _ =>
    intro qs hqs
    exact ⟨[], [], (List.append_nil _).symm, hqs, .nil⟩
  | lastArgument _ _ ih =>
    intro qs hqs
    obtain ⟨ps, hcontent, hstands⟩ := ih qs hqs
    refine ⟨ps, hcontent, ?_⟩
    simpa [inOrderEach] using hstands
  | moreArguments _ hc _ ih₁ ih₂ =>
    intro qs hqs
    obtain ⟨ps₂, hcontent₂, hstands₂⟩ := ih₂ qs hqs
    obtain ⟨ps₁, hcontent₁, hstands₁⟩ := ih₁ _ (.comma hc hcontent₂)
    refine ⟨ps₁ ++ ps₂, by rwa [List.append_assoc], ?_⟩
    rw [inOrderEach, List.flatten_cons]
    exact List.rel_append hstands₁ hstands₂

/-- **An expression in order says what its text says.**  Parentheses outside of units, commas and
each plus before a value apart, the tokens of an accepted text are one by one what its tree says
from left to right. -/
theorem ofText_inOrder {text : String} {e : Expr α} (h : ofText r text = .ok e) :
    ∃ ts ps, Token.ofText text = .ok ts ∧ (∀ qs, Content false ts qs ↔ qs = ps) ∧
      List.Forall₂ (Stands r) e.inOrder ps := by
  obtain ⟨ts, htokens, h⟩ := ofText_eq_ok.mp h
  obtain ⟨rest, hderives, hstop⟩ := ofTokens_eq_ok.mp h
  have hrest := Token.stop_of_suffix htokens hderives.suffix hstop
  obtain ⟨ps, hcontent, hstands⟩ := hderives.reads [] (.stop hrest)
  rw [List.append_nil] at hcontent
  refine ⟨ts, ps, htokens, fun qs ↦ ⟨fun hqs ↦ hqs.unique ps hcontent, ?_⟩, hstands⟩
  rintro rfl
  exact hcontent

/-- A minus, a number, a unit of seven tokens, a slash, a function and two names are left. -/
theorem ofText_inOrder_fraction : ∃ (e : Expr Float) (ts : List Token) (ps : List Piece),
    ofText Registry.standard "-(2 m^(2)*s / f(b, +c))" = .ok e ∧
      Token.ofText "-(2 m^(2)*s / f(b, +c))" = .ok ts ∧
      (∀ qs, Content false ts qs ↔ qs = ps) ∧
      List.Forall₂ (Stands Registry.standard) e.inOrder ps ∧ ps.length = 7 := by
  obtain ⟨e, he⟩ := exists_eq_ok (by decide +kernel :
    (ofText (Registry.standard : Registry Float) "-(2 m^(2)*s / f(b, +c))").isOk = true)
  have hlength : (ofText (Registry.standard : Registry Float)
      "-(2 m^(2)*s / f(b, +c))").toOption.map (·.inOrder.length) = some 7 := by
    decide +kernel
  rw [he] at hlength
  obtain ⟨ts, ps, htokens, hcontent, hstands⟩ := ofText_inOrder he
  exact ⟨e, ts, ps, he, htokens, hcontent, hstands,
    hstands.length_eq.symm.trans (Option.some.inj hlength)⟩

end Expr
end Mensura
