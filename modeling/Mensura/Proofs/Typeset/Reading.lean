import Mensura.Proofs.Typeset.Formula
import Mensura.Proofs.UnitExpr.Shown

/-!
# Reading formulas

A formula is a product of terms; a term is a factor with signs in front and marks behind; a factor
is an identifier or something in brackets, with formulas inside.  `Row`, `Signed`, `Factor` and
`Atom` say so of expressions, given what the expressions inside are like.

Each of these is read from the front of a formula in one way, provided that the formulas inside
are: `atom_read`, `factor_read`, `signed_read`, `row_read`.  What makes them stop is what may follow
them: a product goes on with ` \times `, a factor with a mark, and the formula ends where a bracket
closes or a sum or a list of arguments goes on.

`Formed` closes the circle: the expressions that are rows of such expressions again.  Their trees
are read from their formulas in one way (`Formed.read`).
-/

set_option autoImplicit false

namespace Mensura
namespace Typeset

open Mensura.Expr
open Text (Stops)
open UnitExpr (Ends)

variable {α : Type} [Scalar α]

/-! ## What may follow -/

/-- What may follow a term: the end of the formula, or another term of the product. -/
def termStops : List (List Char) :=
  rowStops ++ [times]

/-- The characters with which something that follows a factor starts. -/
theorem head_of_stops {s : List Char} (h : Stops markStops s) :
    ∀ c ∈ s.head?, c ∈ delimiters ∧ c ∉ brackets := by
  have hall : markStops.all (fun p ↦ p.head?.any fun c ↦ c ∈ delimiters ∧ c ∉ brackets) = true := by
    decide
  obtain rfl | ⟨p, hp, rest, rfl⟩ := h
  · simp
  · have hhead := List.all_eq_true.mp hall p hp
    cases p with
    | nil => cases hhead
    | cons c p => simpa using hhead

theorem breaks_of_stops {s : List Char} (h : Stops markStops s) : Breaks s :=
  fun c hc ↦ not_isWordChar_of_mem (head_of_stops h c hc).1

/-- No bracket follows a factor. -/
theorem not_stops_bracket {c : Char} {s : List Char} (hc : c ∈ brackets) :
    ¬Stops markStops (c :: s) :=
  fun h ↦ (head_of_stops h c rfl).2 hc

theorem termStops_subset : termStops ⊆ markStops := by
  simp [termStops, markStops, times]

theorem rowStops_subset : rowStops ⊆ termStops :=
  List.subset_append_left _ _

/-- A formula ends where a bracket closes. -/
theorem stops_closing (function : String) (s : List Char) :
    Stops rowStops (closing function ++ s) := by
  rw [closing]
  split
  · exact .inr ⟨"\\right|".toList, by simp [rowStops], s, rfl⟩
  · exact .inr ⟨[')'], by simp [rowStops], s, rfl⟩

theorem stops_pair (k : Pair) (s : List Char) :
    Stops rowStops (k.separator ++ s) ∧ Stops rowStops (k.closing ++ s) := by
  cases k with
  | sum => exact ⟨.inr ⟨[' ', '+', ' '], by simp [rowStops], s, rfl⟩,
      .inr ⟨[')'], by simp [rowStops], s, rfl⟩⟩
  | difference => exact ⟨.inr ⟨[' ', '-', ' '], by simp [rowStops], s, rfl⟩,
      .inr ⟨[')'], by simp [rowStops], s, rfl⟩⟩
  | quotient => exact ⟨.inr ⟨['}'], by simp [rowStops], '{' :: s, rfl⟩,
      .inr ⟨['}'], by simp [rowStops], s, rfl⟩⟩

/-! ## How expressions are put together -/

variable {p q : Expr α → Prop}

/-- An expression in brackets, whose parts have a property. -/
inductive Bracketed (p : Expr α → Prop) : Expr α → Prop
  | call {function : String} {args : List (Expr α)} : Token.IsName function.toList →
    (∀ a ∈ args, p a) → Bracketed p (.call function args)
  | pair (k : Pair) {a b : Expr α} : p a → p b → Bracketed p (binary k.operator a b)

/-- An identifier, or an expression in brackets. -/
inductive Atom (p : Expr α → Prop) : Expr α → Prop
  | ident {name : String} : Token.IsName name.toList → Atom p (.ident name)
  | bracketed {e : Expr α} : Bracketed p e → Atom p e

/-- A factor of a product: an atom with marks behind it. -/
inductive Factor (p : Expr α → Prop) : Expr α → Prop
  | atom {e : Expr α} : Atom p e → Factor p e
  | mark {m : Mark α} {e : Expr α} : Factor p e → m.Holds p → Factor p (m.on e)

/-- A term of a product: a factor behind signs. -/
inductive Signed (p : Expr α → Prop) : Expr α → Prop
  | factor {e : Expr α} : Factor p e → Signed p e
  | neg {e : Expr α} : Signed p e → Signed p (unary .neg e)

/-- A product of terms from left to right. -/
inductive Row (p : Expr α → Prop) : Expr α → Prop
  | term {e : Expr α} : Signed p e → Row p e
  | product {a b : Expr α} : Row p a → Signed p b → Row p (binary .mul a b)

/-- An expression with marks behind it. -/
def marked (e : Expr α) (ms : List (Mark α)) : Expr α :=
  ms.foldl (fun e m ↦ m.on e) e

theorem Factor.exists_marks {e : Expr α} (h : Factor p e) :
    ∃ a ms, e = marked a ms ∧ Atom p a ∧ ∀ m ∈ ms, m.Holds p := by
  induction h with
  | atom h => exact ⟨_, [], rfl, h, by simp⟩
  | @mark m e _ hm ih =>
    obtain ⟨a, ms, rfl, ha, hms⟩ := ih
    refine ⟨a, ms ++ [m], by simp [marked], ha, fun x hx ↦ ?_⟩
    rcases List.mem_append.mp hx with hx | hx
    · exact hms x hx
    · exact List.mem_singleton.mp hx ▸ hm

theorem Row.exists_terms {e : Expr α} (h : Row p e) : ∃ (first : Expr α) (rest : List (Expr α)),
    e = rest.foldl (binary .mul) first ∧ Signed p first ∧ ∀ x ∈ rest, Signed p x := by
  induction h with
  | term h => exact ⟨_, [], rfl, h, by simp⟩
  | @product a b _ hb ih =>
    obtain ⟨first, rest, rfl, hfirst, hrest⟩ := ih
    refine ⟨first, rest ++ [b], by simp, hfirst, fun x hx ↦ ?_⟩
    rcases List.mem_append.mp hx with hx | hx
    · exact hrest x hx
    · exact List.mem_singleton.mp hx ▸ hb

theorem formula_marked (e : Expr α) (ms : List (Mark α)) :
    formula (marked e ms) = formula e ++ ms.flatMap Mark.formula := by
  induction ms generalizing e with
  | nil => simp [marked]
  | cons m ms ih =>
    have hcons : marked e (m :: ms) = marked (m.on e) ms := rfl
    rw [hcons, ih, formula_on, List.flatMap_cons, List.append_assoc]

theorem formula_neg (e : Expr α) : formula (unary .neg e) = '-' :: formula e := by
  simp [unary, formula, formulas, applied]

/-- A term behind the first one of a product. -/
def factorFormula (e : Expr α) : List Char :=
  times ++ formula e

theorem formula_foldl_mul (e : Expr α) (es : List (Expr α)) :
    formula (es.foldl (binary .mul) e) = formula e ++ es.flatMap factorFormula := by
  induction es generalizing e with
  | nil => simp
  | cons x es ih =>
    rw [List.foldl_cons, ih, List.flatMap_cons]
    simp [factorFormula, binary, formula, formulas, applied]

/-! ## How formulas begin -/

theorem not_isLetter_of_isDigit {c : Char} (h : c.isDigit = true) : Text.isLetter c = false := by
  simp only [Char.isDigit, Bool.and_eq_true, decide_eq_true_eq, ge_iff_le] at h
  have hlow : 48 ≤ c.toNat := UInt32.le_iff_toNat_le.mp h.1
  have hhigh : c.toNat ≤ 57 := UInt32.le_iff_toNat_le.mp h.2
  simp only [Text.isLetter, if_pos (show c.toNat < 0x80 by omega), Bool.or_eq_false_iff,
    Bool.and_eq_false_iff, decide_eq_false_iff_not]
  omega

/-- The characters that no name starts with. -/
theorem head_of_isName {n : List Char} (h : Token.IsName n) {c : Char} (hc : c ∈ n.head?) :
    c.isDigit = false ∧ c ∉ ['-', ')', '}', '('] := by
  have hstarts := h.starts
  obtain ⟨n, rfl⟩ : ∃ n', n = c :: n' := by
    cases n with
    | nil => cases hc
    | cons d n => exact ⟨n, by simpa using hc⟩
  have hall : ['-', ')', '}', '('].all (fun c ↦ !Text.isLetter c && c != '_' && c != '\\') = true :=
    by decide
  have hcase (hletter : Text.isLetter c = false) : c = '_' ∨ c = '\\' := by
    simp only [Token.startsName, hletter, Bool.false_or, Bool.or_eq_true, Bool.and_eq_true,
      decide_eq_true_eq] at hstarts
    exact hstarts.imp_right And.left
  constructor
  · rw [Bool.eq_false_iff]
    intro hdigit
    rcases hcase (not_isLetter_of_isDigit hdigit) with rfl | rfl <;> exact absurd hdigit (by decide)
  · intro hmem
    have hother := List.all_eq_true.mp hall c hmem
    simp only [Bool.and_eq_true, Bool.not_eq_true', bne_iff_ne] at hother
    obtain ⟨⟨hletter, hunder⟩, hslash⟩ := hother
    exact (hcase hletter).elim hunder hslash

theorem exists_cons_of_isName {n : List Char} (h : Token.IsName n) :
    ∃ c s, n = c :: s ∧ c.isDigit = false ∧ c ∉ ['-', ')', '}', '('] := by
  obtain ⟨c, n, rfl⟩ := h.exists_cons
  exact ⟨c, n, rfl, head_of_isName h rfl⟩

/-- Brackets begin with a parenthesis, or with a name that a bracket follows. -/
theorem Bracketed.exists_bracket {e : Expr α} (h : Bracketed p e) :
    (∃ s, formula e = '(' :: s) ∨ ∃ name bracket s, formula e = name ++ bracket :: s ∧
      Token.IsName name ∧ bracket ∈ brackets ∧ name ≠ "\\right".toList := by
  cases h with
  | @call function args _ _ =>
    obtain ⟨name, bracket, rest, hopen, hopening⟩ := exists_opening function
    refine .inr ⟨name, bracket, rest ++ (commas (formulas args) ++ closing function), ?_,
      hopening.isName, hopening.bracket_mem, hopening.name_ne.2⟩
    rw [formula, hopen, List.append_assoc, List.cons_append]
  | pair k _ _ =>
    rw [formula_pair]
    cases k with
    | sum => exact .inl ⟨_, rfl⟩
    | difference => exact .inl ⟨_, rfl⟩
    | quotient =>
      exact .inr ⟨fraction, '{', _, rfl, isName_fraction, by decide, by decide⟩

/-- Atoms begin with neither a digit nor a sign. -/
theorem Atom.exists_cons {e : Expr α} (h : Atom p e) :
    ∃ c s, formula e = c :: s ∧ c.isDigit = false ∧ c ∉ ['-', ')', '}'] := by
  have hname {n : List Char} (hn : Token.IsName n) (s : List Char) :
      ∃ c s', n ++ s = c :: s' ∧ c.isDigit = false ∧ c ∉ ['-', ')', '}'] := by
    obtain ⟨c, n, rfl, hdigit, hc⟩ := exists_cons_of_isName hn
    exact ⟨c, n ++ s, rfl, hdigit, fun hmem ↦ hc (List.mem_append_left ['('] hmem)⟩
  cases h with
  | ident h =>
    rw [formula]
    simpa using hname h []
  | bracketed h =>
    rcases h.exists_bracket with ⟨s, hs⟩ | ⟨name, bracket, s, hs, hn, -, -⟩
    · exact ⟨'(', s, hs, by decide, by decide⟩
    · rw [hs]
      exact hname hn _

theorem stops_marks (ms : List (Mark α)) {s : List Char} (hs : Stops termStops s) :
    Stops markStops (ms.flatMap Mark.formula ++ s) := by
  cases ms with
  | nil => exact hs.mono termStops_subset
  | cons m ms =>
    cases m with
    | unit u label =>
      exact .inr ⟨['\\', ' '], by simp [markStops], label.toList ++ (ms.flatMap Mark.formula ++ s),
        by simp [Mark.formula]⟩
    | power e =>
      exact .inr ⟨['^', '{'], by simp [markStops],
        formula e ++ '}' :: (ms.flatMap Mark.formula ++ s), by simp [Mark.formula]⟩

/-- No atom with something behind it begins as the bar that closes an absolute value. -/
theorem Atom.ne_bar {e : Expr α} (h : Atom p e) {s t : List Char} (hs : Stops markStops s) :
    formula e ++ s ≠ "\\right".toList ++ '|' :: t := by
  have hbar : Breaks ('|' :: t) := breaks_cons (by decide)
  intro heq
  cases h with
  | ident h =>
    rw [formula] at heq
    obtain ⟨-, rfl⟩ := name_read h isName_right (breaks_of_stops hs) hbar heq
    exact not_stops_bracket (by decide) hs
  | bracketed h =>
    rcases h.exists_bracket with ⟨s', hs'⟩ | ⟨name, bracket, s', hs', hn, hbracket, hne⟩
    · simp [hs'] at heq
    · rw [hs', List.append_assoc, List.cons_append] at heq
      exact hne (name_read hn isName_right (breaks_bracket hbracket) hbar heq).1

/-- How formulas do not begin. -/
structure Begins (e : Expr α) : Prop where
  /-- Not as an integer exponent. -/
  not_integer : ∀ (n : Int) (s t : List Char), formula e ++ s ≠ (toString n).toList ++ '}' :: t
  /-- Not as the end of a call. -/
  not_closing : ∀ (function : String) {s : List Char} (t : List Char), Stops termStops s →
    formula e ++ s ≠ closing function ++ t

theorem head_toString {k : Nat} {c : Char} {s t : List Char}
    (h : c :: s = (toString k).toList ++ '}' :: t) : c.isDigit = true ∨ c = '}' := by
  cases hk : (toString k).toList with
  | nil =>
    rw [hk] at h
    exact .inr (List.cons.inj h).1
  | cons d ds =>
    rw [hk] at h
    exact .inl ((List.cons.inj h).1 ▸ Text.isDigit_of_mem_toString (hk ▸ List.mem_cons_self))

theorem Signed.begins {e : Expr α} (h : Signed p e) : Begins e := by
  induction h with
  | factor h =>
    obtain ⟨e, ms, rfl, hatom, -⟩ := h.exists_marks
    obtain ⟨c, cs, hcons, hdigit, hc⟩ := hatom.exists_cons
    constructor
    · intro n s t heq
      rw [formula_marked, hcons, List.append_assoc, List.cons_append] at heq
      obtain ⟨k, ⟨-, hn⟩ | ⟨-, hn⟩⟩ := Text.toString_int_toList n <;> rw [hn] at heq
      · rcases head_toString heq with hd | rfl
        · rw [hdigit] at hd
          cases hd
        · exact hc (by decide)
      · exact hc (by simp [(List.cons.inj heq).1])
    · intro function s t hs heq
      rw [formula_marked, List.append_assoc] at heq
      rw [closing] at heq
      split at heq
      · exact hatom.ne_bar (stops_marks ms hs) heq
      · rw [hcons] at heq
        exact hc (by simp [(List.cons.inj heq).1])
  | @neg e _ ih =>
    constructor
    · intro n s t heq
      rw [formula_neg] at heq
      obtain ⟨k, ⟨-, hn⟩ | ⟨-, hn⟩⟩ := Text.toString_int_toList n <;> rw [hn] at heq
      · exact absurd (head_toString heq) (by decide)
      · exact ih.not_integer k s t (List.cons.inj heq).2
    · intro function s t _ heq
      rw [formula_neg, closing] at heq
      split at heq <;> simp at heq

theorem stops_factorFormula (e : Expr α) (s : List Char) :
    Stops termStops (factorFormula e ++ s) :=
  .inr ⟨times, by simp [termStops], formula e ++ s, by simp [factorFormula]⟩

theorem Row.begins {e : Expr α} (h : Row p e) : Begins e := by
  obtain ⟨first, rest, rfl, hfirst, -⟩ := h.exists_terms
  constructor
  · intro n s t
    rw [formula_foldl_mul, List.append_assoc]
    exact hfirst.begins.not_integer n _ t
  · intro function s t hs
    rw [formula_foldl_mul, List.append_assoc]
    refine hfirst.begins.not_closing function t ?_
    cases rest with
    | nil => exact hs
    | cons x rest =>
      rw [List.flatMap_cons, List.append_assoc]
      exact stops_factorFormula x _

/-! ## Reading parts -/

/-- Formulas tell the expressions of two kinds apart. -/
structure Apart (p q : Expr α → Prop) : Prop where
  read : ∀ {a b : Expr α} {s t : List Char}, p a → q b → Stops rowStops s → Stops rowStops t →
    formula a ++ s = formula b ++ t → a = b ∧ s = t
  left : ∀ {a : Expr α}, p a → Begins a
  right : ∀ {b : Expr α}, q b → Begins b

theorem Apart.begins (h : Apart p q) {e : Expr α} (he : p e ∨ q e) : Begins e :=
  he.elim h.left h.right

/-- An argument behind the first one. -/
def argumentFormula (e : Expr α) : List Char :=
  ',' :: ' ' :: formula e

theorem commas_cons (e : Expr α) (es : List (Expr α)) :
    commas ((e :: es).map formula) = formula e ++ es.flatMap argumentFormula := by
  rw [commas, List.map_cons, Text.intercalate_cons, List.flatMap_map]
  rfl

/-- A call ends here. -/
def Closes (function : String) (s : List Char) : Prop :=
  ∃ t, s = closing function ++ t

theorem Closes.stops {function : String} {s : List Char} (h : Closes function s) :
    Stops rowStops s := by
  obtain ⟨t, rfl⟩ := h
  exact stops_closing function t

theorem Closes.ne_argument {function : String} {s t : List Char} {e : Expr α}
    (h : Closes function s) : s ≠ argumentFormula e ++ t := by
  obtain ⟨u, rfl⟩ := h
  rw [argumentFormula, closing]
  split <;> simp

/-- **The arguments of a call are read in one way.** -/
theorem arguments_read (hpq : Apart p q) {function : String} {as bs : List (Expr α)}
    (ha : ∀ a ∈ as, p a) (hb : ∀ b ∈ bs, q b) {s t : List Char}
    (h : commas (as.map formula) ++ (closing function ++ s) =
      commas (bs.map formula) ++ (closing function ++ t)) : as = bs ∧ s = t := by
  have hstops {s : List Char} (as : List (Expr α)) :
      Stops rowStops (as.flatMap argumentFormula ++ (closing function ++ s)) := by
    cases as with
    | nil => exact stops_closing function s
    | cons a as => exact .inr ⟨[',', ' '], by simp [rowStops], _, rfl⟩
  cases as with
  | nil =>
    cases bs with
    | nil => exact ⟨rfl, List.append_cancel_left h⟩
    | cons b bs =>
      rw [commas_cons, List.append_assoc] at h
      exact absurd h.symm ((hpq.right (hb b List.mem_cons_self)).not_closing function s
        ((hstops bs).mono rowStops_subset))
  | cons a as =>
    cases bs with
    | nil =>
      rw [commas_cons, List.append_assoc] at h
      exact absurd h ((hpq.left (ha a List.mem_cons_self)).not_closing function t
        ((hstops as).mono rowStops_subset))
    | cons b bs =>
      obtain ⟨ha, has⟩ := List.forall_mem_cons.mp ha
      obtain ⟨hb, hbs⟩ := List.forall_mem_cons.mp hb
      rw [commas_cons, commas_cons, List.append_assoc, List.append_assoc] at h
      obtain ⟨rfl, hrest⟩ := hpq.read ha hb (hstops as) (hstops bs) h
      have hnext {x : Expr α} {s : List Char} : Stops rowStops (argumentFormula x ++ s) :=
        .inr ⟨[',', ' '], by simp [rowStops], formula x ++ s, rfl⟩
      obtain ⟨hmap, hclosing⟩ : as.map id = bs.map id ∧ _ :=
        Text.flatMap_read (fun hx hy hs ht h ↦ hpq.read hx hy hs ht (List.cons.inj
          (List.cons.inj h).2).2) (fun _ ↦ hnext) Closes.stops (fun _ hs ↦ hs.ne_argument) has hbs
          ⟨s, rfl⟩ ⟨t, rfl⟩ hrest
      rw [List.map_id, List.map_id] at hmap
      exact ⟨by rw [hmap], List.append_cancel_left hclosing⟩

/-- **Two expressions in brackets are read in one way.** -/
theorem pair_read (hpq : Apart p q) {k k' : Pair} {a b a' b' : Expr α} (ha : p a) (hb : p b)
    (ha' : q a') (hb' : q b') {s t : List Char}
    (h : formula (binary k.operator a b) ++ s = formula (binary k'.operator a' b') ++ t) :
    binary k.operator a b = binary k'.operator a' b' ∧ s = t := by
  rw [formula_pair, formula_pair] at h
  simp only [List.append_assoc] at h
  have hopening {s t : List Char} (h : k.opening ++ s = k'.opening ++ t) :
      (k = .quotient ↔ k' = .quotient) ∧ s = t := by
    cases k <;> cases k' <;> simp [Pair.opening, fraction] at h ⊢ <;> exact h
  obtain ⟨hquotient, hfirst⟩ := hopening h
  obtain ⟨rfl, hmiddle⟩ := hpq.read ha ha' (stops_pair k _).1 (stops_pair k' _).1 hfirst
  have hseparator {s t : List Char} (h : k.separator ++ s = k'.separator ++ t) :
      k = k' ∧ s = t := by
    cases k <;> cases k' <;> simp [Pair.separator] at h hquotient ⊢ <;> exact h
  obtain ⟨rfl, hsecond⟩ := hseparator hmiddle
  obtain ⟨rfl, hclosing⟩ := hpq.read hb hb' (stops_pair k _).2 (stops_pair k _).2 hsecond
  exact ⟨rfl, List.append_cancel_left hclosing⟩

/-- No call begins as a pair does. -/
theorem call_ne_pair {function : String} {k : Pair} {s t : List Char} :
    opening function ++ s ≠ k.opening ++ t := by
  obtain ⟨name, bracket, rest, hopen, hopening⟩ := exists_opening function
  rw [hopen, List.append_assoc, List.cons_append]
  have hparen : name ++ bracket :: (rest ++ s) ≠ '(' :: t := by
    obtain ⟨c, n, rfl, -, hc⟩ := exists_cons_of_isName hopening.isName
    exact fun h ↦ hc (by simp [(List.cons.inj h).1])
  cases k with
  | sum => exact hparen
  | difference => exact hparen
  | quotient =>
    exact fun h ↦ hopening.name_ne.1
      (name_read hopening.isName isName_fraction (hopening.breaks _) (breaks_cons (by decide)) h).1

theorem bracketed_read (hpq : Apart p q) {a b : Expr α} (ha : Bracketed p a) (hb : Bracketed q b)
    {s t : List Char} (h : formula a ++ s = formula b ++ t) : a = b ∧ s = t := by
  cases ha with
  | call hf ha =>
    cases hb with
    | call hg hb =>
      simp only [formula, formulas_eq_map, List.append_assoc] at h
      obtain ⟨rfl, hargs⟩ := opening_read hf hg h
      obtain ⟨rfl, rfl⟩ := arguments_read hpq ha hb hargs
      exact ⟨rfl, rfl⟩
    | pair k _ _ =>
      simp only [formula, formula_pair, List.append_assoc] at h
      exact absurd h call_ne_pair
  | pair k ha ha' =>
    cases hb with
    | call _ _ =>
      simp only [formula, formula_pair, List.append_assoc] at h
      exact absurd h.symm call_ne_pair
    | pair k' hb hb' => exact pair_read hpq ha ha' hb hb' h

/-- No identifier begins as an expression in brackets does. -/
theorem ident_ne_bracketed {n s t : List Char} {e : Expr α} (hn : Token.IsName n)
    (hs : Stops markStops s) (he : Bracketed p e) : n ++ s ≠ formula e ++ t := by
  intro h
  rcases he.exists_bracket with ⟨s', hs'⟩ | ⟨name, bracket, s', hs', hname, hbracket, -⟩
  · obtain ⟨c, n, rfl, -, hc⟩ := exists_cons_of_isName hn
    rw [hs'] at h
    exact hc (by simp [(List.cons.inj h).1])
  · rw [hs', List.append_assoc, List.cons_append] at h
    obtain ⟨-, rfl⟩ := name_read hn hname (breaks_of_stops hs) (breaks_bracket hbracket) h
    exact not_stops_bracket hbracket hs

theorem atom_read (hpq : Apart p q) {a b : Expr α} (ha : Atom p a) (hb : Atom q b)
    {s t : List Char} (hs : Stops markStops s) (ht : Stops markStops t)
    (h : formula a ++ s = formula b ++ t) : a = b ∧ s = t := by
  cases ha with
  | ident ha =>
    cases hb with
    | ident hb =>
      rw [formula, formula] at h
      obtain ⟨hname, rfl⟩ := name_read ha hb (breaks_of_stops hs) (breaks_of_stops ht) h
      exact ⟨by rw [String.toList_inj.mp hname], rfl⟩
    | bracketed hb =>
      rw [formula] at h
      exact absurd h (ident_ne_bracketed ha hs hb)
  | bracketed ha =>
    cases hb with
    | ident hb =>
      rw [formula] at h
      exact absurd h.symm (ident_ne_bracketed hb ht ha)
    | bracketed hb => exact bracketed_read hpq ha hb h

/-! ## Reading products -/

/-- Where a factor with no more marks ends, no mark follows. -/
theorem ne_mark {m : Mark α} {s t : List Char} (hs : Stops termStops s) : s ≠ m.formula ++ t := by
  cases m with
  | unit u label => exact hs.ne_append (x := ['\\', ' ']) (by decide)
  | power e =>
    rw [Mark.formula, List.cons_append]
    exact hs.ne_append (x := ['^']) (by decide)

theorem ends_of_termStops {s : List Char} (hs : Stops termStops s) : Ends s where
  stops := hs.mono termStops_subset
  unraised n t := by
    rw [UnitExpr.exponentLabel, List.cons_append]
    exact hs.ne_append (x := ['^']) (by decide)

theorem ends_mark (hpq : Apart p q) {m : Mark α} (hm : m.Holds p ∨ m.Holds q) (s : List Char) :
    Ends (m.formula ++ s) where
  stops := by
    cases m with
    | unit u label => exact .inr ⟨['\\', ' '], by simp [markStops], label.toList ++ s, rfl⟩
    | power e =>
      exact .inr ⟨['^', '{'], by simp [markStops], formula e ++ ['}'] ++ s, by simp [Mark.formula]⟩
  unraised n rest h := by
    cases m with
    | unit u label => simp [Mark.formula, UnitExpr.exponentLabel] at h
    | power e =>
      have hbegins := hpq.begins (e := e) hm
      simp only [Mark.formula, UnitExpr.exponentLabel, List.cons_append, List.append_assoc,
        List.cons.injEq, true_and] at h
      exact hbegins.not_integer n _ _ h

theorem stops_brace (s : List Char) : Stops rowStops ('}' :: s) :=
  .inr ⟨['}'], by simp [rowStops], s, rfl⟩

/-- **A mark is read in one way.** -/
theorem mark_read (hpq : Apart p q) {m m' : Mark α} (hm : m.Holds p) (hm' : m'.Holds q)
    {s t : List Char} (hs : Ends s) (ht : Ends t) (h : m.formula ++ s = m'.formula ++ t) :
    m = m' ∧ s = t := by
  cases m with
  | unit u label =>
    cases m' with
    | unit u' label' =>
      obtain ⟨unit, hunit, hu, rfl⟩ := hm
      obtain ⟨unit', hunit', hu', rfl⟩ := hm'
      simp only [Mark.formula, List.cons_append, List.cons.injEq, true_and] at h
      obtain ⟨hspelling, rfl⟩ := hunit.reads hunit' hs ht h
      have hlabel := String.toList_inj.mp (List.append_cancel_right h)
      have hsame := Registry.eval_respelled hunit.worded hunit'.worded hspelling hu hu'
      exact ⟨by rw [hsame, hlabel], rfl⟩
    | power e => simp [Mark.formula] at h
  | power e =>
    cases m' with
    | unit u' label' => simp [Mark.formula] at h
    | power e' =>
      simp only [Mark.formula, List.cons_append, List.append_assoc, List.cons.injEq,
        true_and] at h
      obtain ⟨rfl, hbrace⟩ := hpq.read hm hm' (stops_brace s) (stops_brace t) h
      exact ⟨rfl, (List.cons.inj hbrace).2⟩

theorem factor_read (hpq : Apart p q) {a b : Expr α} (ha : Factor p a) (hb : Factor q b)
    {s t : List Char} (hs : Stops termStops s) (ht : Stops termStops t)
    (h : formula a ++ s = formula b ++ t) : a = b ∧ s = t := by
  obtain ⟨e, ms, rfl, he, hms⟩ := ha.exists_marks
  obtain ⟨e', ms', rfl, he', hms'⟩ := hb.exists_marks
  rw [formula_marked, formula_marked, List.append_assoc, List.append_assoc] at h
  obtain ⟨rfl, hmarks⟩ := atom_read hpq he he' (stops_marks ms hs) (stops_marks ms' ht) h
  obtain ⟨hmap, rfl⟩ : ms.map id = ms'.map id ∧ _ :=
    Text.flatMap_read (fun hm hm' hs ht h ↦ mark_read hpq hm hm' hs ht h)
      (fun hm ↦ ends_mark hpq hm _) ends_of_termStops (fun _ hs ↦ ne_mark hs) hms hms' hs ht hmarks
  rw [List.map_id, List.map_id] at hmap
  exact ⟨by rw [hmap], rfl⟩

/-- Factors begin with no sign. -/
theorem Factor.ne_sign {e : Expr α} (h : Factor p e) {s t : List Char} :
    formula e ++ s ≠ '-' :: t := by
  obtain ⟨a, ms, rfl, ha, -⟩ := h.exists_marks
  obtain ⟨c, cs, hcons, -, hc⟩ := ha.exists_cons
  rw [formula_marked, hcons]
  exact fun h ↦ hc (by simp [(List.cons.inj h).1])

theorem signed_read (hpq : Apart p q) {a b : Expr α} (ha : Signed p a) (hb : Signed q b)
    {s t : List Char} (hs : Stops termStops s) (ht : Stops termStops t)
    (h : formula a ++ s = formula b ++ t) : a = b ∧ s = t := by
  induction ha generalizing b with
  | factor ha =>
    cases hb with
    | factor hb => exact factor_read hpq ha hb hs ht h
    | neg _ =>
      rw [formula_neg] at h
      exact absurd h ha.ne_sign
  | neg _ ih =>
    cases hb with
    | factor hb =>
      rw [formula_neg] at h
      exact absurd h.symm hb.ne_sign
    | neg hb =>
      rw [formula_neg, formula_neg] at h
      obtain ⟨rfl, rfl⟩ := ih hb (List.cons.inj h).2
      exact ⟨rfl, rfl⟩

/-- **A product is read in one way**, if the expressions inside its terms are. -/
theorem row_read (hpq : Apart p q) {a b : Expr α} (ha : Row p a) (hb : Row q b)
    {s t : List Char} (hs : Stops rowStops s) (ht : Stops rowStops t)
    (h : formula a ++ s = formula b ++ t) : a = b ∧ s = t := by
  have hrest {s : List Char} (es : List (Expr α)) (hs : Stops rowStops s) :
      Stops termStops (es.flatMap factorFormula ++ s) := by
    cases es with
    | nil => exact hs.mono rowStops_subset
    | cons e es =>
      rw [List.flatMap_cons, List.append_assoc]
      exact stops_factorFormula e _
  have hstop {e : Expr α} {s t : List Char} (hs : Stops rowStops s) :
      s ≠ factorFormula e ++ t := by
    rw [factorFormula, List.append_assoc]
    exact hs.ne_append (by decide)
  have hread {a b : Expr α} {s t : List Char} (ha : Signed p a) (hb : Signed q b)
      (hs : Stops termStops s) (ht : Stops termStops t)
      (h : factorFormula a ++ s = factorFormula b ++ t) : a = b ∧ s = t := by
    rw [factorFormula, factorFormula, List.append_assoc, List.append_assoc] at h
    exact signed_read hpq ha hb hs ht (List.append_cancel_left h)
  obtain ⟨first, rest, rfl, hfirst, hsigned⟩ := ha.exists_terms
  obtain ⟨first', rest', rfl, hfirst', hsigned'⟩ := hb.exists_terms
  rw [formula_foldl_mul, formula_foldl_mul, List.append_assoc, List.append_assoc] at h
  obtain ⟨rfl, htail⟩ := signed_read hpq hfirst hfirst' (hrest rest hs) (hrest rest' ht) h
  obtain ⟨hmap, rfl⟩ : rest.map id = rest'.map id ∧ _ :=
    Text.flatMap_read hread (fun _ ↦ stops_factorFormula _ _) (fun hs ↦ hs.mono rowStops_subset)
      (fun _ hs ↦ hstop hs) hsigned hsigned' hs ht htail
  rw [List.map_id, List.map_id] at hmap
  exact ⟨by rw [hmap], rfl⟩

/-! ## Reading expressions -/

theorem Mark.Holds.mono (h : ∀ e, p e → q e) {m : Mark α} (hm : m.Holds p) : m.Holds q := by
  cases m with
  | unit u label => exact hm
  | power e => exact h e hm

theorem Bracketed.mono (h : ∀ e, p e → q e) {e : Expr α} (he : Bracketed p e) :
    Bracketed q e := by
  cases he with
  | call hf ha => exact .call hf fun a hmem ↦ h a (ha a hmem)
  | pair k ha hb => exact .pair k (h _ ha) (h _ hb)

theorem Atom.mono (h : ∀ e, p e → q e) {e : Expr α} (he : Atom p e) : Atom q e := by
  cases he with
  | ident hn => exact .ident hn
  | bracketed he => exact .bracketed (he.mono h)

theorem Factor.mono (h : ∀ e, p e → q e) {e : Expr α} (he : Factor p e) : Factor q e := by
  induction he with
  | atom he => exact .atom (he.mono h)
  | mark _ hm ih => exact .mark ih (hm.mono h)

theorem Signed.mono (h : ∀ e, p e → q e) {e : Expr α} (he : Signed p e) : Signed q e := by
  induction he with
  | factor he => exact .factor (he.mono h)
  | neg _ ih => exact .neg ih

theorem Row.mono (h : ∀ e, p e → q e) {e : Expr α} (he : Row p e) : Row q e := by
  induction he with
  | term he => exact .term (he.mono h)
  | product _ hb ih => exact .product ih (hb.mono h)

/-- The expressions whose trees show in their formulas: rows whose parts are such expressions
again, and nothing else. -/
def Formed (e : Expr α) : Prop :=
  ∀ p : Expr α → Prop, (∀ e, Row p e → p e) → p e

theorem Formed.of_row {e : Expr α} (h : Row Formed e) : Formed e :=
  fun _ hp ↦ hp e (h.mono fun _ hx ↦ hx _ hp)

theorem Formed.row {e : Expr α} (h : Formed e) : Row Formed e :=
  h (Row Formed) fun _ hrow ↦ hrow.mono fun _ ↦ Formed.of_row

/-- **The tree of such an expression is read from its formula in one way.** -/
theorem Formed.read {a b : Expr α} (ha : Formed a) (hb : Formed b) {s t : List Char}
    (hs : Stops rowStops s) (ht : Stops rowStops t) (h : formula a ++ s = formula b ++ t) :
    a = b ∧ s = t := by
  let reads : Expr α → Prop := fun a ↦ Begins a ∧ ∀ {b : Expr α} {s t : List Char}, Formed b →
    Stops rowStops s → Stops rowStops t → formula a ++ s = formula b ++ t → a = b ∧ s = t
  have hapart : Apart reads Formed := {
    read := fun ha hb hs ht h ↦ ha.2 hb hs ht h
    left := fun ha ↦ ha.1
    right := fun hb ↦ hb.row.begins }
  have hreads : reads a := ha reads fun e he ↦
    ⟨he.begins, fun hb hs ht h ↦ row_read hapart he hb.row hs ht h⟩
  exact hreads.2 hb hs ht h

end Typeset
end Mensura
