import Mensura.Proofs.Expr.UnitRow
import Mensura.Proofs.Quantity.Sum

/-!
# Expressions with parentheses around every operand

An expression written so that no operator is ever next to another one is read as the tree that is
written down (`Written.exists_tokens`, `ofText_text`).  Nothing is assumed of the units behind
values but that they are rows of names: where a unit has no value, the tree has none, and reading
stops with the same error.
-/

set_option autoImplicit false

namespace Mensura
namespace Expr

open Token UnitExpr

variable {α : Type} [Scalar α]

/-! ## Written expressions -/

/-- The operators between two operands. -/
inductive Between
  | add | sub | mul | div | pow
  deriving DecidableEq, Repr

def Between.char : Between → Char
  | add => '+'
  | sub => '-'
  | mul => '*'
  | div => '/'
  | pow => '^'

def Between.operator : Between → Operator α
  | add => .add
  | sub => .sub
  | mul => .mul
  | div => .div
  | pow => .pow

/-- Expressions as they are written: numerals, names and units by their characters. -/
inductive Written
  | number (digits : List Char)
  | name (text : List Char)
  | call (function : List Char) (args : List Written)
  | neg (operand : Written)
  | binary (op : Between) (left right : Written)
  | attach (value : Written) (unit : Row)

/-- A text in parentheses. -/
def enclosed (cs : List Char) : List Char :=
  '(' :: (cs ++ [')'])

namespace Written

mutual

/-- The text, with parentheses around every operand and around the whole. -/
def chars : Written → List Char
  | number digits => digits
  | name text => text
  | call function args => enclosed (function ++ enclosed (argumentChars args))
  | neg operand => enclosed ('-' :: enclosed operand.chars)
  | binary op left right => enclosed (enclosed left.chars ++ op.char :: enclosed right.chars)
  | attach value unit => enclosed (enclosed value.chars ++ ' ' :: unit.chars)

/-- Arguments between commas. -/
def argumentChars : List Written → List Char
  | [] => []
  | [a] => enclosed a.chars
  | a :: b :: rest => enclosed a.chars ++ ',' :: argumentChars (b :: rest)

end

/-- The text of an expression. -/
def text (s : Written) : String :=
  String.ofList s.chars

mutual

/-- The tree of an expression, the units evaluated in a registry. -/
def tree (r : Registry α) : Written → Result (Expr α)
  | number digits => literalOf ⟨.number, String.ofList digits, 0, false⟩
  | name text => .ok (ident (String.ofList text))
  | call function args => do
    let es ← trees r args
    return Expr.call (String.ofList function) es
  | neg operand => do
    let e ← tree r operand
    return unary .neg e
  | binary op left right => do
    let a ← tree r left
    let b ← tree r right
    return Expr.binary op.operator a b
  | attach value unit => do
    let e ← tree r value
    let plan ← unit.plan
    let u ← r.eval plan
    return unary (.attach u plan.label) e

/-- The trees of arguments. -/
def trees (r : Registry α) : List Written → Result (List (Expr α))
  | [] => .ok []
  | a :: rest => do
    let e ← tree r a
    let es ← trees r rest
    return e :: es

end

mutual

/-- The units of an expression, from left to right. -/
def units : Written → List Row
  | number _ => []
  | name _ => []
  | call _ args => argumentUnits args
  | neg operand => operand.units
  | binary _ left right => left.units ++ right.units
  | attach value unit => value.units ++ [unit]

/-- The units of arguments. -/
def argumentUnits : List Written → List Row
  | [] => []
  | a :: rest => a.units ++ argumentUnits rest

end

mutual

/-- The numerals of an expression have a property, its names are names, and its units are rows of
names. -/
def Valid (numeral : List Char → Prop) : Written → Prop
  | number digits => numeral digits
  | name text => IsName text
  | call function args => IsName function ∧ AllValid numeral args
  | neg operand => operand.Valid numeral
  | binary _ left right => left.Valid numeral ∧ right.Valid numeral
  | attach value unit => value.Valid numeral ∧ unit.Named IsUnitName

def AllValid (numeral : List Char → Prop) : List Written → Prop
  | [] => True
  | a :: rest => a.Valid numeral ∧ AllValid numeral rest

end

end Written

/-! ## Reading with enough fuel -/

/-- Tokens are read as an operand that is not called, if there is enough fuel. -/
def OperandAs (r : Registry α) (x : Result (Expr α)) (ts : List Token) : Prop :=
  ∀ fuel rest, 3 * ts.length + 1 ≤ fuel → opensCall rest = false →
    operand r fuel (ts ++ rest) = x >>= fun e ↦ .ok (e, rest)

/-- Tokens in parentheses are read as an expression, if there is enough fuel. -/
def InsideAs (r : Registry α) (x : Result (Expr α)) (ts : List Token) : Prop :=
  ∀ fuel c rest, 3 * ts.length + 2 ≤ fuel → c.isSymbol ")" = true →
    expression r fuel 0 (ts ++ c :: rest) = x >>= fun e ↦ .ok (e, c :: rest)

section Read

variable {r : Registry α} {x y : Result (Expr α)} {ts us : List Token}

/-- An operand alone is an expression, up to where one ends. -/
theorem OperandAs.expression (h : OperandAs r x ts) {fuel power : Nat} {c : Token}
    {rest : List Token} (hfuel : 3 * ts.length + 2 ≤ fuel)
    (hc : Ends c) :
    Expr.expression r fuel power (ts ++ c :: rest) = x >>= fun e ↦ .ok (e, c :: rest) := by
  obtain ⟨fuel, rfl⟩ := Nat.exists_eq_add_of_le' (show 1 ≤ fuel by omega)
  rw [Expr.expression, h fuel _ (by omega) (hc.not_opensCall rest), bind_assoc]
  simp only [ok_bind, hc.climb]

theorem OperandAs.inside (h : OperandAs r x ts) : InsideAs r x ts :=
  fun _ _ _ hfuel hc ↦ h.expression hfuel (.closes hc)

/-- An operand up to the end of the text is all of it. -/
theorem OperandAs.ofTokens (h : OperandAs r x ts) {stop : Token} (hstop : stop.kind = .stop) :
    Expr.ofTokens r (ts ++ [stop]) = x := by
  have hfuel : 3 * ts.length + 2 ≤ fuelFor (ts ++ [stop]) := by
    rw [fuelFor, List.length_append]
    omega
  rw [Expr.ofTokens, h.expression hfuel (.stop hstop), bind_assoc]
  simp only [ok_bind, peek_cons, hstop, if_true, pure_eq_ok]
  cases x <;> rfl

/-- Parentheses make an operand. -/
theorem InsideAs.enclosed (h : InsideAs r x ts) {o c : Token} (ho : o.isSymbol "(" = true)
    (hc : c.isSymbol ")" = true) : OperandAs r x (o :: (ts ++ [c])) := by
  intro fuel rest hfuel _
  simp only [List.length_cons, List.length_append, List.length_nil] at hfuel
  obtain ⟨fuel, rfl⟩ := Nat.exists_eq_add_of_le' (show 1 ≤ fuel by omega)
  obtain ⟨hkind, -⟩ := isSymbol_iff.mp ho
  have hread := h fuel c rest (by omega) hc
  simp only [List.cons_append, List.append_assoc, List.nil_append, operand, peek_cons, hkind, ho,
    List.drop_succ_cons, List.drop_zero, hread, bind_assoc, ok_bind, expect, hc, if_true,
    reduceCtorEq, if_false, pure_eq_ok]

/-- A sign in front of an operand. -/
theorem OperandAs.neg (h : OperandAs r x ts) {t : Token} (ht : t.isSymbol "-" = true) :
    InsideAs r (x >>= fun e ↦ .ok (unary .neg e)) (t :: ts) := by
  intro fuel c rest hfuel hc
  simp only [List.length_cons] at hfuel
  obtain ⟨fuel, rfl⟩ := Nat.exists_eq_add_of_le' (show 2 ≤ fuel by omega)
  obtain ⟨hkind, htext⟩ := isSymbol_iff.mp ht
  have hparen : t.isSymbol "(" = false := by simp [isSymbol, htext]
  have hread : Expr.expression r fuel signPower (ts ++ c :: rest) = _ :=
    h.expression (by omega) (.closes hc)
  simp only [List.cons_append, Expr.expression, operand, peek_cons, hkind, hparen, ht,
    List.drop_succ_cons, List.drop_zero, hread, bind_assoc, ok_bind, (Ends.closes hc).climb,
    if_true, reduceCtorEq, Bool.false_eq_true, if_false, pure_eq_ok]

/-- An operator between operands. -/
theorem OperandAs.binary (hx : OperandAs r x ts) (hy : OperandAs r y us) {op : Between} {t : Token}
    (ht : t.isSymbol (String.singleton op.char) = true) :
    InsideAs r (x >>= fun a ↦ y >>= fun b ↦ .ok (Expr.binary op.operator a b)) (ts ++ t :: us) := by
  intro fuel c rest hfuel hc
  simp only [List.length_append, List.length_cons] at hfuel
  obtain ⟨fuel, rfl⟩ := Nat.exists_eq_add_of_le' (show 2 ≤ fuel by omega)
  obtain ⟨hkind, htext⟩ := isSymbol_iff.mp ht
  obtain ⟨i, hi, hop⟩ : ∃ i : InfixOperator α, InfixOperator.ofToken? t = some i ∧
      i.op = op.operator := by
    cases op <;> simp [InfixOperator.ofToken?, isSymbol, hkind, htext, Between.char,
      Between.operator]
  have hcall : opensCall (t :: (us ++ c :: rest)) = false :=
    opensCall_of_symbol ht (by cases op <;> decide) _
  have hleft : operand r (fuel + 1) (ts ++ t :: (us ++ c :: rest)) = _ :=
    hx (fuel + 1) _ (by omega) hcall
  have hright : Expr.expression r fuel i.right (us ++ c :: rest) = _ :=
    hy.expression (by omega) (.closes hc)
  rw [List.append_assoc, List.cons_append, Expr.expression, hleft]
  simp only [bind_assoc, ok_bind, climb, not_startsUnit_of_symbol hkind, peek_cons, hi,
    Nat.not_lt_zero, List.drop_succ_cons, List.drop_zero, hright, (Ends.closes hc).climb, hop,
    Bool.false_eq_true, if_false]

/-- A row of names behind an operand. -/
theorem OperandAs.attach (hx : OperandAs r x ts) {plan : Except Fault UnitExpr}
    (hunit : ∀ rest, EndsUnit rest →
      startsUnit (us ++ rest) = true ∧ unitExpr (us ++ rest) = leaving plan rest) :
    InsideAs r (x >>= fun e ↦ liftM plan >>= fun u ↦ r.eval u >>= fun unit ↦
      .ok (unary (.attach unit u.label) e)) (ts ++ us) := by
  intro fuel c rest hfuel hc
  simp only [List.length_append] at hfuel
  obtain ⟨fuel, rfl⟩ := Nat.exists_eq_add_of_le' (show 2 ≤ fuel by omega)
  obtain ⟨hstarts, hplan⟩ := hunit (c :: rest) (endsUnit_of_closes (.inr hc))
  have hleft : operand r (fuel + 1) (ts ++ (us ++ c :: rest)) = _ :=
    hx (fuel + 1) _ (by omega) (endsName_of_startsUnit hstarts).call
  rw [List.append_assoc, Expr.expression, hleft]
  simp only [bind_assoc, ok_bind, climb, hstarts, hplan, leaving_bind, (Ends.closes hc).climb,
    if_true]
  rfl

/-- Arguments in parentheses, with commas between them. -/
inductive ArgumentsAs (r : Registry α) : Result (List (Expr α)) → List Token → Prop
  | last {x : Result (Expr α)} {o : Token} {ts : List Token} : o.isSymbol "(" = true →
    OperandAs r x (o :: ts) → ArgumentsAs r (x >>= fun e ↦ .ok [e]) (o :: ts)
  | next {x : Result (Expr α)} {xs : Result (List (Expr α))} {o t : Token} {ts us : List Token} :
    o.isSymbol "(" = true → OperandAs r x (o :: ts) → t.isSymbol "," = true →
    ArgumentsAs r xs us →
    ArgumentsAs r (x >>= fun e ↦ xs >>= fun es ↦ .ok (e :: es)) (o :: ts ++ t :: us)

theorem ArgumentsAs.arguments {xs : Result (List (Expr α))} (h : ArgumentsAs r xs ts) {c : Token}
    (hc : c.isSymbol ")" = true) (rest : List Token) : ∀ fuel, 3 * ts.length + 3 ≤ fuel →
      Expr.arguments r fuel (ts ++ c :: rest) = xs >>= fun es ↦ .ok (es, c :: rest) := by
  induction h with
  | last _ hx =>
    intro fuel hfuel
    obtain ⟨fuel, rfl⟩ := Nat.exists_eq_add_of_le' (show 1 ≤ fuel by omega)
    have hcomma : c.isSymbol "," = false := by
      simp [isSymbol, (isSymbol_iff.mp hc).2]
    rw [Expr.arguments, hx.expression (by omega) (.closes hc)]
    simp [bind_assoc, peek_cons, hcomma]
  | @next x xs o t ts us _ hx ht _ ih =>
    intro fuel hfuel
    simp only [List.length_append, List.length_cons] at hfuel ih
    obtain ⟨fuel, rfl⟩ := Nat.exists_eq_add_of_le' (show 1 ≤ fuel by omega)
    have hread : Expr.expression r fuel 0 (o :: ts ++ t :: (us ++ c :: rest)) = _ :=
      hx.expression (by simp only [List.length_cons]; omega) (.comma ht)
    rw [List.cons_append] at hread
    rw [List.append_assoc, List.cons_append, List.cons_append, Expr.arguments, hread]
    simp [bind_assoc, peek_cons, ht, ih fuel (by omega)]

theorem ArgumentsAs.exists_cons {xs : Result (List (Expr α))} (h : ArgumentsAs r xs ts) :
    ∃ o rest, ts = o :: rest ∧ o.isSymbol ")" = false := by
  have hopen : ∀ {o : Token}, o.isSymbol "(" = true → o.isSymbol ")" = false := by
    intro o ho
    simp [isSymbol, (isSymbol_iff.mp ho).2]
  cases h with
  | last ho _ => exact ⟨_, _, rfl, hopen ho⟩
  | next ho _ _ _ => exact ⟨_, _, rfl, hopen ho⟩

section Call

variable {t o c : Token} (ht : t.kind = .name) (ho : o.isSymbol "(" = true)
  (hspaced : o.spaced = false) (hc : c.isSymbol ")" = true)

include ht ho hspaced hc

/-- A call with arguments. -/
theorem ArgumentsAs.call {xs : Result (List (Expr α))} (h : ArgumentsAs r xs ts) :
    OperandAs r (xs >>= fun es ↦ .ok (Expr.call t.text es)) (t :: o :: (ts ++ [c])) := by
  intro fuel rest hfuel _
  simp only [List.length_cons, List.length_append, List.length_nil] at hfuel
  obtain ⟨fuel, rfl⟩ := Nat.exists_eq_add_of_le' (show 1 ≤ fuel by omega)
  have hread := h.arguments hc rest fuel (by omega)
  obtain ⟨p, us, rfl, hp⟩ := h.exists_cons
  simp only [List.cons_append, List.append_assoc, List.nil_append] at hread ⊢
  simp [operand, peek_cons, ht, opensCall, ho, hspaced, hp, hread, expect, hc, bind_assoc]

/-- A call without arguments. -/
theorem emptyCall : OperandAs r (.ok (Expr.call t.text [])) [t, o, c] := by
  intro fuel rest hfuel _
  obtain ⟨fuel, rfl⟩ := Nat.exists_eq_add_of_le' (show 1 ≤ fuel by omega)
  simp [operand, peek_cons, ht, opensCall, ho, hspaced, hc]

end Call

theorem Numeral.operandAs {text : String} {e : Expr α} (h : Numeral text e) (column : Nat)
    (spaced : Bool) : OperandAs r (.ok e) [⟨.number, text, column, spaced⟩] := by
  intro fuel rest hfuel _
  obtain ⟨fuel, rfl⟩ := Nat.exists_eq_add_of_le' (show 1 ≤ fuel by omega)
  simp [Expr.operand, peek_cons, h.literalOf]

theorem name_operandAs (text : String) (column : Nat) (spaced : Bool) :
    OperandAs r (.ok (ident text)) [⟨.name, text, column, spaced⟩] := by
  intro fuel rest hfuel hcall
  obtain ⟨fuel, rfl⟩ := Nat.exists_eq_add_of_le' (show 1 ≤ fuel by omega)
  simp [operand, peek_cons, hcall]

end Read

/-! ## Reading what is written -/

/-- Whatever stands behind a text in parentheses, the parenthesis keeps it apart. -/
theorem cuts_enclosed_append {column : Nat} {spaced : Bool} {cs ds : List Char} {ts us : List Token}
    (h : Cuts (column + 1) false cs ts) (h' : Cuts (column + 1 + cs.length + 1) false ds us) :
    Cuts column spaced (enclosed cs ++ ds) ((⟨.symbol, "(", column, spaced⟩ ::
      (ts ++ [⟨.symbol, ")", column + 1 + cs.length, false⟩])) ++ us) := by
  have hclose : Cuts (column + 1 + cs.length) false (')' :: ds) _ :=
    .symbol (by decide) (by decide) h'
  have hopen : Cuts column spaced ('(' :: (cs ++ ')' :: ds)) _ :=
    .symbol (by decide) (by decide) (h.append hclose (separated_cons (by decide)))
  rw [enclosed, List.cons_append, List.append_assoc, List.cons_append, List.nil_append,
    List.cons_append, List.append_assoc, List.cons_append, List.nil_append]
  exact hopen

theorem cuts_enclosed {column : Nat} {spaced : Bool} {cs : List Char} {ts : List Token}
    (h : Cuts (column + 1) false cs ts) :
    Cuts column spaced (enclosed cs) (⟨.symbol, "(", column, spaced⟩ ::
      (ts ++ [⟨.symbol, ")", column + 1 + cs.length, false⟩])) := by
  simpa using cuts_enclosed_append h .nil

theorem separated_enclosed (cs : List Char) : Separated (enclosed cs) :=
  separated_cons (by decide)

theorem cuts_between {op : Between} {column : Nat} {cs : List Char} {ts : List Token}
    (h : Cuts (column + 1) false (enclosed cs) ts) :
    Cuts column false (op.char :: enclosed cs)
      (⟨.symbol, String.singleton op.char, column, false⟩ :: ts) := by
  cases op with
  | mul => exact .star (List.cons_ne_nil _ _) (by simp [enclosed]) h
  | add | sub | div | pow => exact .symbol (by decide) (by decide) h

namespace Written

variable {r : Registry α} {numeral : List Char → Prop}

mutual

/-- **What is written is read as its tree.** -/
theorem exists_tokens
    (hnumeral : ∀ digits, numeral digits → ∃ e : Expr α, Numeral (String.ofList digits) e) :
    ∀ s : Written, s.Valid numeral → ∀ column spaced, ∃ ts,
      Cuts column spaced s.chars ts ∧ OperandAs r (s.tree r) ts
  | number digits, h, column, spaced => by
    obtain ⟨e, he⟩ := hnumeral digits (by rwa [Valid] at h)
    have hdigits := he.isNumeral
    rw [String.toList_ofList] at hdigits
    rw [chars, tree, he.literalOf]
    exact ⟨_, hdigits.cuts, he.operandAs column spaced⟩
  | name text, h, column, spaced => by
    rw [Valid] at h
    rw [chars, tree]
    exact ⟨_, h.cuts, name_operandAs _ column spaced⟩
  | call function [], h, column, spaced => by
    rw [Valid] at h
    rw [chars, argumentChars, tree, trees, ok_bind]
    exact ⟨_, cuts_enclosed (h.1.cuts.append (cuts_enclosed .nil) (separated_enclosed [])),
      (emptyCall rfl rfl rfl rfl).inside.enclosed rfl rfl⟩
  | call function (a :: args), h, column, spaced => by
    rw [Valid] at h
    obtain ⟨ts, hts, hread⟩ := exists_argument_tokens hnumeral (a :: args)
      (List.cons_ne_nil a args) h.2 (column + 1 + function.length + 1)
    rw [chars, tree]
    exact ⟨_, cuts_enclosed (h.1.cuts.append (cuts_enclosed hts) (separated_enclosed _)),
      (hread.call rfl rfl rfl rfl).inside.enclosed rfl rfl⟩
  | neg operand, h, column, spaced => by
    rw [Valid] at h
    obtain ⟨ts, hts, hread⟩ := exists_tokens hnumeral operand h (column + 3) false
    rw [chars, tree]
    exact ⟨_, cuts_enclosed (.symbol (by decide) (by decide) (cuts_enclosed hts)),
      ((hread.inside.enclosed rfl rfl).neg rfl).enclosed rfl rfl⟩
  | binary op left right, h, column, spaced => by
    rw [Valid] at h
    obtain ⟨ts, hts, hleft⟩ := exists_tokens hnumeral left h.1 (column + 2) false
    obtain ⟨us, hus, hright⟩ :=
      exists_tokens hnumeral right h.2 (column + 2 + left.chars.length + 3) false
    rw [chars, tree]
    exact ⟨_, cuts_enclosed (cuts_enclosed_append hts (cuts_between (cuts_enclosed hus))),
      ((hleft.inside.enclosed rfl rfl).binary (hright.inside.enclosed rfl rfl)
        (by simp [isSymbol])).enclosed rfl rfl⟩
  | attach value unit, h, column, spaced => by
    rw [Valid] at h
    obtain ⟨ts, hts, hread⟩ := exists_tokens hnumeral value h.1 (column + 2) false
    obtain ⟨us, hus, hunit⟩ :=
      exists_row_tokens h.2 (column + 2 + value.chars.length + 2) true
    rw [chars, tree]
    exact ⟨_, cuts_enclosed (cuts_enclosed_append hts hus.blank),
      ((hread.inside.enclosed rfl rfl).attach hunit).enclosed rfl rfl⟩

theorem exists_argument_tokens
    (hnumeral : ∀ digits, numeral digits → ∃ e : Expr α, Numeral (String.ofList digits) e) :
    ∀ args : List Written, args ≠ [] → AllValid numeral args → ∀ column, ∃ ts,
      Cuts column false (argumentChars args) ts ∧ ArgumentsAs r (trees r args) ts
  | [], hne, _, _ => absurd rfl hne
  | [a], _, h, column => by
    rw [AllValid] at h
    obtain ⟨ts, hts, hread⟩ := exists_tokens hnumeral a h.1 (column + 1) false
    rw [argumentChars, trees]
    exact ⟨_, cuts_enclosed hts, .last rfl (hread.inside.enclosed rfl rfl)⟩
  | a :: b :: args, _, h, column => by
    rw [AllValid] at h
    obtain ⟨ts, hts, hread⟩ := exists_tokens hnumeral a h.1 (column + 1) false
    obtain ⟨us, hus, hmore⟩ := exists_argument_tokens hnumeral (b :: args)
      (List.cons_ne_nil b args) h.2 (column + 1 + a.chars.length + 2)
    rw [argumentChars, trees]
    exact ⟨_, cuts_enclosed_append hts (.symbol (by decide) (by decide) hus),
      .next rfl (hread.inside.enclosed rfl rfl) rfl hmore⟩

end

/-! ## Whether there is a tree -/

/-- A row of names has a value in a registry. -/
def Resolves (r : Registry α) (row : Row) : Prop :=
  ∃ plan unit, row.plan = .ok plan ∧ r.eval plan = .ok unit

mutual

theorem exists_tree_iff
    (hnumeral : ∀ digits, numeral digits → ∃ e : Expr α, Numeral (String.ofList digits) e) :
    ∀ s : Written, s.Valid numeral →
      ((∃ e, s.tree r = .ok e) ↔ ∀ row ∈ s.units, Resolves r row)
  | number digits, h => by
    obtain ⟨e, he⟩ := hnumeral digits (by rwa [Valid] at h)
    simp [tree, units, he.literalOf]
  | name text, _ => by simp [tree, units]
  | call function args, h => by
    rw [Valid] at h
    simp only [tree, units, ← exists_trees_iff hnumeral args h.2, bind_eq_ok, pure_eq_ok,
      Except.ok.injEq]
    exact ⟨fun ⟨_, es, hes, _⟩ ↦ ⟨es, hes⟩, fun ⟨es, hes⟩ ↦ ⟨_, es, hes, rfl⟩⟩
  | neg operand, h => by
    rw [Valid] at h
    simp only [tree, units, ← exists_tree_iff hnumeral operand h, bind_eq_ok, pure_eq_ok,
      Except.ok.injEq]
    exact ⟨fun ⟨_, e, he, _⟩ ↦ ⟨e, he⟩, fun ⟨e, he⟩ ↦ ⟨_, e, he, rfl⟩⟩
  | binary op left right, h => by
    rw [Valid] at h
    simp only [tree, units, List.forall_mem_append, ← exists_tree_iff hnumeral left h.1,
      ← exists_tree_iff hnumeral right h.2, bind_eq_ok, pure_eq_ok, Except.ok.injEq]
    exact ⟨fun ⟨_, a, ha, b, hb, _⟩ ↦ ⟨⟨a, ha⟩, b, hb⟩,
      fun ⟨⟨a, ha⟩, b, hb⟩ ↦ ⟨_, a, ha, b, hb, rfl⟩⟩
  | attach value unit, h => by
    rw [Valid] at h
    rw [tree, units, List.forall_mem_append, List.forall_mem_singleton,
      ← exists_tree_iff hnumeral value h.1, Resolves]
    simp only [bind_eq_ok, liftM_eq_ok, pure_eq_ok, Except.ok.injEq]
    exact ⟨fun ⟨_, e, he, plan, hplan, u, hu, _⟩ ↦ ⟨⟨e, he⟩, plan, u, hplan, hu⟩,
      fun ⟨⟨e, he⟩, plan, u, hplan, hu⟩ ↦ ⟨_, e, he, plan, hplan, u, hu, rfl⟩⟩

theorem exists_trees_iff
    (hnumeral : ∀ digits, numeral digits → ∃ e : Expr α, Numeral (String.ofList digits) e) :
    ∀ args : List Written, AllValid numeral args →
      ((∃ es, trees r args = .ok es) ↔ ∀ row ∈ argumentUnits args, Resolves r row)
  | [], _ => by simp [trees, argumentUnits]
  | a :: args, h => by
    rw [AllValid] at h
    simp only [trees, argumentUnits, List.forall_mem_append, ← exists_tree_iff hnumeral a h.1,
      ← exists_trees_iff hnumeral args h.2, bind_eq_ok, pure_eq_ok, Except.ok.injEq]
    exact ⟨fun ⟨_, e, he, es, hes, _⟩ ↦ ⟨⟨e, he⟩, es, hes⟩,
      fun ⟨⟨e, he⟩, es, hes⟩ ↦ ⟨_, e, he, es, hes, rfl⟩⟩

end

end Written

/-! ## Doubles -/

/-- A decimal literal that a double can hold. -/
structure IsDecimal (digits : List Char) : Prop where
  isNumeral : IsNumeral digits
  finite : ∃ m e, decimalOf? digits = some (m, e) ∧
    Scalar.isFinite (Scalar.ofDecimal m e : Float) = true

/-- Such a literal is read as one. -/
theorem IsDecimal.exists_numeral {digits : List Char} (h : IsDecimal digits) :
    ∃ e : Expr Float, Numeral (String.ofList digits) e := by
  obtain ⟨m, e, hdecimal, hfinite⟩ := h.finite
  obtain ⟨v, hv⟩ := Binary64.isFinite_iff.mp hfinite
  obtain ⟨q, hq, -⟩ := Quantity.exists_normalize
    (q := Quantity.ofScalar (Scalar.ofDecimal m e : Float))
    ⟨Binary64.toRat?_ofNat_one, le_rfl, by norm_num⟩ hv
  refine ⟨literal q, by rw [String.toList_ofList]; exact h.isNumeral, ?_⟩
  simp [literalOf, hdecimal, hq, Except.toOption]

/-- Such texts are read as trees, whatever their units are. -/
theorem ofText_eq_tree (r : Registry Float) (s : Written) (h : s.Valid IsDecimal) :
    ofText r s.text = s.tree r := by
  obtain ⟨ts, hts, hread⟩ :=
    Written.exists_tokens (r := r) (fun _ hdigits ↦ hdigits.exists_numeral) s h 0 false
  have hcuts : Cuts 0 false s.text.toList ts := by
    rwa [Written.text, String.toList_ofList]
  rw [ofText, hcuts.ofText]
  exact hread.ofTokens rfl

/-- **A text with parentheses around every operand is read as its tree.**  There is a tree, and the
text is accepted, exactly if every unit in it has a value in the registry. -/
theorem ofText_text (r : Registry Float) (s : Written) (h : s.Valid IsDecimal) :
    ofText r s.text = s.tree r ∧
      ((∃ e, s.tree r = .ok e) ↔ ∀ row ∈ s.units, Written.Resolves r row) :=
  ⟨ofText_eq_tree r s h, Written.exists_tree_iff (fun _ hdigits ↦ hdigits.exists_numeral) s h⟩

/-- A call of two arguments, in cubic metres per second. -/
def callPerSecond : Written :=
  .attach (.call ['f'] [.name ['x'], .neg (.number ['2', '.', '5'])])
    ⟨⟨['m'], some (.digit '3' rfl)⟩, [(.per, ⟨['s'], none⟩)]⟩

theorem ofText_callPerSecond : callPerSecond.Valid IsDecimal ∧
    callPerSecond.text = "(((f((x),((-(2.5)))))) m^3/s)" ∧
    ∃ e : Expr Float, callPerSecond.tree Registry.standard = .ok e ∧
      ofText Registry.standard callPerSecond.text = .ok e := by
  have hname (c : Char) (hc : c.isAlpha = true) : IsUnitName [c] :=
    isUnitName_of_isLetters (.single hc)
  have hdecimal : IsDecimal ['2', '.', '5'] :=
    ⟨⟨by decide, by decide⟩, 25, -1, by decide, by decide +kernel⟩
  have hvalid : callPerSecond.Valid IsDecimal := by
    simp only [callPerSecond, Written.Valid, Written.AllValid]
    exact ⟨⟨(hname 'f' (by decide)).isName, (hname 'x' (by decide)).isName, hdecimal, trivial⟩,
      hname 'm' (by decide), by simpa using hname 's' (by decide)⟩
  have hunits : ∀ row ∈ callPerSecond.units,
      Written.Resolves (Registry.standard : Registry Float) row := by
    obtain ⟨u, hu⟩ := exists_eq_ok (by decide +kernel : ((Registry.standard : Registry Float).eval
      (.div (.pow (.name "m") 3) (.name "s"))).isOk = true)
    simp only [callPerSecond, Written.units, Written.argumentUnits, List.nil_append,
      List.append_nil, List.forall_mem_singleton]
    exact ⟨_, u, rfl, hu⟩
  obtain ⟨hread, htree⟩ := ofText_text Registry.standard callPerSecond hvalid
  obtain ⟨e, he⟩ := htree.mpr hunits
  exact ⟨hvalid, rfl, e, he, hread.trans he⟩

/-- One, in metres to the power of zero. -/
def onePerNothing : Written :=
  .attach (.number ['1']) ⟨⟨['m'], some (.digit '0' rfl)⟩, []⟩

/-- That every name has a value is not enough: to the power of zero a metre has none. -/
theorem exists_text_refused : onePerNothing.Valid IsDecimal ∧
    onePerNothing.text = "((1) m^0)" ∧
    (∃ u, (Registry.standard : Registry Float).resolve "m" = .ok u) ∧
    ofText (Registry.standard : Registry Float) onePerNothing.text =
      .error (.calc (.unitToZero "m")) := by
  have hdecimal : IsDecimal ['1'] :=
    ⟨⟨by decide, by decide⟩, 1, 0, by decide, by decide +kernel⟩
  have hvalid : onePerNothing.Valid IsDecimal := by
    simp only [onePerNothing, Written.Valid]
    exact ⟨hdecimal, isUnitName_of_isLetters (.single (by decide)), by simp⟩
  have hrefused : (Registry.standard.eval (.pow (.name "m") 0)).map (fun _ : PhysUnit Float ↦ ()) =
      .error (.calc (.unitToZero "m")) := by decide +kernel
  have heval : (Registry.standard : Registry Float).eval (.pow (.name "m") 0) =
      .error (.calc (.unitToZero "m")) := by
    generalize (Registry.standard : Registry Float).eval (.pow (.name "m") 0) = x at hrefused ⊢
    cases x with
    | ok u => cases hrefused
    | error e => simpa [Except.map] using hrefused
  obtain ⟨e, he⟩ := hdecimal.exists_numeral
  refine ⟨hvalid, rfl, exists_eq_ok (by decide +kernel), ?_⟩
  rw [ofText_eq_tree _ _ hvalid, onePerNothing, Written.tree, Written.tree, he.literalOf, ok_bind]
  have hplan : Row.plan ⟨⟨['m'], some (.digit '0' rfl)⟩, []⟩ =
      .ok (.pow (.name "m") 0) := rfl
  rw [hplan, liftM_ok, ok_bind, heval, error_bind]

end Expr
end Mensura
