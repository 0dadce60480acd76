import Mensura.Proofs.Text.Blank
import Mensura.Proofs.Text.Integer
import Mensura.UnitExpr

/-!
# Labels of units

What the label of a unit is made of.

* The label of a name has commands for some letters, and only one for both ways to write a mu, the
  micro sign and the Greek letter.  So names are told up to that (`spelled_read`), and `respelled`
  makes the two alike.
* An exponent is told by its digits (`exponentLabel_read`).
* The units written behind values are names, with integer exponents, in a row of products and
  quotients that leans to the left (`Chain`).

A label may stand in a formula.  `Stops` and `Ends` say what may follow there.
-/

set_option autoImplicit false

namespace Mensura

/-! ## What may follow -/

namespace Text

/-- The text is at its end, or goes on in one of some ways. -/
def Stops (ways : List (List Char)) (t : List Char) : Prop :=
  t = [] ∨ ∃ p ∈ ways, p <+: t

theorem Stops.mono {ways ways' : List (List Char)} {t : List Char} (h : Stops ways t)
    (hsubset : ways ⊆ ways') : Stops ways' t :=
  h.imp_right fun ⟨p, hp, hprefix⟩ ↦ ⟨p, hsubset hp, hprefix⟩

/-- A text does not go on in a way that none of the allowed ones begins with or begins. -/
theorem Stops.ne_append {ways : List (List Char)} {s x t : List Char} (hs : Stops ways s)
    (hx : x ≠ [] ∧ ∀ p ∈ ways, ¬p <+: x ∧ ¬x <+: p) : s ≠ x ++ t := by
  rintro rfl
  rcases hs with hnil | ⟨p, hp, hprefix⟩
  · exact hx.1 (List.append_eq_nil_iff.mp hnil).1
  · obtain ⟨hpx, hxp⟩ := hx.2 p hp
    exact (List.prefix_or_prefix_of_prefix hprefix (List.prefix_append x t)).elim hpx hxp

/-- What stands in front of the first of some character is read in one way. -/
theorem append_cons_read {α : Type} {a : α} {xs ys s t : List α} (hx : a ∉ xs) (hy : a ∉ ys)
    (h : xs ++ a :: s = ys ++ a :: t) : xs = ys ∧ s = t := by
  induction xs generalizing ys with
  | nil =>
    cases ys with
    | nil => simpa using h
    | cons y ys =>
      obtain ⟨rfl, -⟩ := by simpa using h
      exact absurd List.mem_cons_self hy
  | cons x xs ih =>
    cases ys with
    | nil =>
      obtain ⟨rfl, -⟩ := by simpa using h
      exact absurd List.mem_cons_self hx
    | cons y ys =>
      simp only [List.cons_append, List.cons.injEq] at h
      obtain ⟨rfl, rfl⟩ := ih (fun hm ↦ hx (List.mem_cons_of_mem _ hm))
        (fun hm ↦ hy (List.mem_cons_of_mem _ hm)) h.2
      exact ⟨by rw [h.1], rfl⟩

/-- Pieces with a separator between them are the first piece, and the others with it in front. -/
theorem intercalate_cons {α : Type} (separator piece : List α) (pieces : List (List α)) :
    separator.intercalate (piece :: pieces) = piece ++ pieces.flatMap (separator ++ ·) := by
  induction pieces generalizing piece with
  | nil => simp
  | cons next pieces ih => rw [List.intercalate_cons_cons, ih, List.flatMap_cons, List.append_assoc,
      List.append_assoc]

/-- **Pieces in a row are read in one way**, if each of them is and no piece starts where the row
ends. -/
theorem flatMap_read {β γ : Type} {text : β → List Char} {g : β → γ} {p q : β → Prop}
    {next ends : List Char → Prop}
    (hread : ∀ {a b : β} {s t : List Char}, p a → q b → next s → next t →
      text a ++ s = text b ++ t → g a = g b ∧ s = t)
    (hnext : ∀ {a : β} {s : List Char}, p a ∨ q a → next (text a ++ s))
    (hends : ∀ {s : List Char}, ends s → next s)
    (hstop : ∀ {a : β} {s t : List Char}, p a ∨ q a → ends s → s ≠ text a ++ t)
    {xs ys : List β} {s t : List Char} (hx : ∀ x ∈ xs, p x) (hy : ∀ y ∈ ys, q y) (hs : ends s)
    (ht : ends t) (h : xs.flatMap text ++ s = ys.flatMap text ++ t) :
    xs.map g = ys.map g ∧ s = t := by
  have hrest {zs : List β} {s : List Char} (hz : ∀ z ∈ zs, p z ∨ q z) (hs : ends s) :
      next (zs.flatMap text ++ s) := by
    cases zs with
    | nil => exact hends hs
    | cons z zs =>
      rw [List.flatMap_cons, List.append_assoc]
      exact hnext (hz z List.mem_cons_self)
  induction xs generalizing ys with
  | nil =>
    cases ys with
    | nil => exact ⟨rfl, h⟩
    | cons y ys =>
      rw [List.flatMap_cons, List.append_assoc] at h
      exact absurd h (hstop (.inr (hy y List.mem_cons_self)) hs)
  | cons x xs ih =>
    cases ys with
    | nil =>
      rw [List.flatMap_cons, List.append_assoc] at h
      exact absurd h.symm (hstop (.inl (hx x List.mem_cons_self)) ht)
    | cons y ys =>
      obtain ⟨hx, hxs⟩ := List.forall_mem_cons.mp hx
      obtain ⟨hy, hys⟩ := List.forall_mem_cons.mp hy
      rw [List.flatMap_cons, List.flatMap_cons, List.append_assoc, List.append_assoc] at h
      obtain ⟨hhead, h⟩ := hread hx hy (hrest (fun z hz ↦ .inl (hxs z hz)) hs)
        (hrest (fun z hz ↦ .inr (hys z hz)) ht) h
      obtain ⟨htail, rfl⟩ := ih hxs hys h
      exact ⟨by rw [List.map_cons, List.map_cons, hhead, htail], rfl⟩

end Text

namespace Typeset

/-- What may follow a formula: the end of what it stands in, or the rest of a sum or of a list. -/
def rowStops : List (List Char) :=
  [[')'], ['}'], [',', ' '], [' ', '+', ' '], [' ', '-', ' '], "\\right|".toList]

/-- What may follow a factor: a mark of its own, another factor, or the end of the formula. -/
def markStops : List (List Char) :=
  rowStops ++ [['^', '{'], ['\\', ' '], [' ', '\\', 't', 'i', 'm', 'e', 's', ' ']]

/-- What may follow a unit name. -/
def nameStops : List (List Char) :=
  markStops ++ [[' ', '\\', ' ']]

/-- The brackets that stand behind commands. -/
def brackets : List Char :=
  ['(', '{', '|']

/-- The characters that end names in formulas. -/
def delimiters : List Char :=
  brackets ++ [')', '}', ',', ' ', '+', '-', '\\', '^']

theorem not_isWordChar_of_mem {c : Char} (h : c ∈ delimiters) : Text.isWordChar c = false := by
  have hall : delimiters.all (fun c ↦ !Text.isWordChar c) = true := by decide
  simpa using List.all_eq_true.mp hall c h

end Typeset

namespace UnitExpr

open Text Typeset

/-! ## Names -/

/-- The Greek letter for the micro sign. -/
def respell (c : Char) : Char :=
  if c = 'µ' then 'μ' else c

/-- What a character of a name becomes at the end of the name. -/
def commandOf (c : Char) : List Char :=
  if respell c = 'Ω' then ['\\', 'O', 'm', 'e', 'g', 'a']
  else if respell c = 'μ' then ['\\', 'm', 'u']
  else [c]

/-- The blank that ends a command before another character. -/
def blankAfter (c : Char) : List Char :=
  if respell c = 'Ω' ∨ respell c = 'μ' then [' '] else []

theorem respell_of_ne {c : Char} (h : c ≠ 'µ') : respell c = c :=
  if_neg h

theorem mathChar_eq (c : Char) : mathChar c = commandOf c ++ blankAfter c := by
  by_cases homega : c = 'Ω'
  · subst homega
    rfl
  by_cases hmicro : c = 'µ'
  · subst hmicro
    rfl
  by_cases hmu : c = 'μ'
  · subst hmu
    rfl
  · simp [mathChar, commandOf, blankAfter, respell_of_ne hmicro, homega, hmicro, hmu]

/-- A name in a label. -/
def spelled : List Char → List Char
  | [] => []
  | [c] => commandOf c
  | c :: d :: rest => commandOf c ++ (blankAfter c ++ spelled (d :: rest))

/-- A character of a name is one of two letters that have a command, or stands for itself. -/
theorem commandOf_cases {c : Char} (h : isWordChar c = true) :
    (respell c = 'Ω' ∧ commandOf c = ['\\', 'O', 'm', 'e', 'g', 'a']) ∨
      (respell c = 'μ' ∧ commandOf c = ['\\', 'm', 'u']) ∨
      (respell c = c ∧ c ≠ '\\' ∧ commandOf c = [c]) := by
  have hslash : c ≠ '\\' := by
    rintro rfl
    exact absurd h (by decide)
  by_cases homega : respell c = 'Ω'
  · exact .inl ⟨homega, if_pos homega⟩
  by_cases hmu : respell c = 'μ'
  · exact .inr (.inl ⟨hmu, by simp [commandOf, hmu]⟩)
  · refine .inr (.inr ⟨respell_of_ne ?_, hslash, by simp [commandOf, homega, hmu]⟩)
    rintro rfl
    exact hmu rfl

theorem blankAfter_cases (c : Char) : blankAfter c = [] ∨ blankAfter c = [' '] := by
  rw [blankAfter]
  split
  · exact .inr rfl
  · exact .inl rfl

theorem blankAfter_congr {c d : Char} (h : respell c = respell d) :
    blankAfter c = blankAfter d := by
  rw [blankAfter, blankAfter, h]

theorem commandOf_read {c d : Char} {s t : List Char} (hc : isWordChar c = true)
    (hd : isWordChar d = true) (h : commandOf c ++ s = commandOf d ++ t) :
    respell c = respell d ∧ s = t := by
  rcases commandOf_cases hc with ⟨hc', hc⟩ | ⟨hc', hc⟩ | ⟨hc', hslash, hc⟩ <;>
    rcases commandOf_cases hd with ⟨hd', hd⟩ | ⟨hd', hd⟩ | ⟨hd', hslash', hd⟩ <;>
    rw [hc, hd] at h <;> simp at h <;> grind

/-- The characters with which something that follows goes on are none of names. -/
theorem ne_of_isWordChar {c : Char} (h : isWordChar c = true) : ∀ d ∈ delimiters, c ≠ d := by
  rintro d hd rfl
  rw [not_isWordChar_of_mem hd] at h
  cases h

/-- A name that goes on starts with what one of its characters becomes. -/
theorem exists_spelled_cons (c : Char) (n : List Char) :
    ∃ rest, spelled (c :: n) = commandOf c ++ rest := by
  cases n with
  | nil => exact ⟨[], (List.append_nil _).symm⟩
  | cons d n => exact ⟨_, rfl⟩

/-- What follows a name does not go on with the name. -/
theorem not_stops_spelled {c d : Char} {n s : List Char} (hd : isWordChar d = true) :
    ¬Stops nameStops (blankAfter c ++ (spelled (d :: n) ++ s)) := by
  obtain ⟨rest, hrest⟩ := exists_spelled_cons d n
  rw [hrest, List.append_assoc]
  generalize rest ++ s = s
  have hne := ne_of_isWordChar hd
  simp only [delimiters, brackets, List.cons_append, List.nil_append, List.forall_mem_cons] at hne
  rintro (h | ⟨p, hp, h⟩)
  · rcases commandOf_cases hd with ⟨-, hd⟩ | ⟨-, hd⟩ | ⟨-, -, hd⟩ <;> simp [hd] at h
  · simp only [nameStops, markStops, rowStops, List.cons_append, List.nil_append, List.mem_cons,
      List.not_mem_nil, or_false] at hp
    rcases blankAfter_cases c with hblank | hblank <;>
      rcases commandOf_cases hd with ⟨-, hd⟩ | ⟨-, hd⟩ | ⟨-, -, hd⟩ <;>
      rw [hblank, hd] at h <;>
      rcases hp with rfl | rfl | rfl | rfl | rfl | rfl | rfl | rfl | rfl | rfl <;>
      simp [List.cons_prefix_cons] at h <;> grind

/-- A word: what a name is made of. -/
structure IsWord (cs : List Char) : Prop where
  ne_nil : cs ≠ []
  isWordChar : ∀ c ∈ cs, isWordChar c = true

theorem IsWord.tail {c d : Char} {n : List Char} (h : IsWord (c :: d :: n)) : IsWord (d :: n) :=
  ⟨by simp, fun x hx ↦ h.isWordChar x (List.mem_cons_of_mem _ hx)⟩

/-- **A name is read from a label in one way.** -/
theorem spelled_read {n m s t : List Char} (hn : IsWord n) (hm : IsWord m)
    (hs : Stops nameStops s) (ht : Stops nameStops t) (h : spelled n ++ s = spelled m ++ t) :
    n.map respell = m.map respell ∧ s = t := by
  induction n using spelled.induct generalizing m with
  | case1 => exact absurd rfl hn.ne_nil
  | case2 c =>
    match m with
    | [] => exact absurd rfl hm.ne_nil
    | [d] =>
      obtain ⟨hcd, rfl⟩ :=
        commandOf_read (hn.isWordChar c (by simp)) (hm.isWordChar d (by simp)) h
      exact ⟨by simp [hcd], rfl⟩
    | d :: d' :: m =>
      rw [spelled, spelled, List.append_assoc, List.append_assoc] at h
      obtain ⟨-, rfl⟩ := commandOf_read (hn.isWordChar c (by simp)) (hm.isWordChar d (by simp)) h
      exact absurd hs (not_stops_spelled (hm.isWordChar d' (by simp)))
  | case3 c c' n ih =>
    match m with
    | [] => exact absurd rfl hm.ne_nil
    | [d] =>
      rw [spelled, spelled, List.append_assoc, List.append_assoc] at h
      obtain ⟨-, rfl⟩ := commandOf_read (hn.isWordChar c (by simp)) (hm.isWordChar d (by simp)) h
      exact absurd ht (not_stops_spelled (hn.isWordChar c' (by simp)))
    | d :: d' :: m =>
      rw [spelled, spelled, List.append_assoc, List.append_assoc, List.append_assoc,
        List.append_assoc] at h
      obtain ⟨hcd, h⟩ := commandOf_read (hn.isWordChar c (by simp)) (hm.isWordChar d (by simp)) h
      rw [blankAfter_congr hcd, List.append_cancel_left_eq] at h
      obtain ⟨hrest, rfl⟩ := ih hn.tail hm.tail h
      exact ⟨by rw [List.map_cons, hcd, hrest, ← List.map_cons], rfl⟩

/-! ## From characters to labels -/

theorem flatMap_mathChar {c : Char} {n : List Char} :
    (c :: n).flatMap mathChar =
      spelled (c :: n) ++ blankAfter ((c :: n).getLast (List.cons_ne_nil c n)) := by
  induction n generalizing c with
  | nil => simp [spelled, mathChar_eq]
  | cons d n ih =>
    rw [List.flatMap_cons, ih, mathChar_eq, spelled, List.getLast_cons_cons]
    simp only [List.append_assoc]

/-- Names neither begin nor end with a blank in a label. -/
theorem spelled_ends {n : List Char} (h : IsWord n) :
    (∃ c rest, spelled n = c :: rest ∧ isBlank c = false) ∧
      ∃ rest c, spelled n = rest ++ [c] ∧ isBlank c = false := by
  have hends {c : Char} (hc : isWordChar c = true) :
      (∃ d rest, commandOf c = d :: rest ∧ isBlank d = false) ∧
        ∃ rest d, commandOf c = rest ++ [d] ∧ isBlank d = false := by
    rcases commandOf_cases hc with ⟨-, h⟩ | ⟨-, h⟩ | ⟨-, -, h⟩
    · exact ⟨⟨'\\', _, h, by decide⟩, ['\\', 'O', 'm', 'e', 'g'], 'a', h, by decide⟩
    · exact ⟨⟨'\\', _, h, by decide⟩, ['\\', 'm'], 'u', h, by decide⟩
    · exact ⟨⟨c, [], h, not_blank_of_isWordChar hc⟩, [], c, h, not_blank_of_isWordChar hc⟩
  induction n using spelled.induct with
  | case1 => exact absurd rfl h.ne_nil
  | case2 c => exact hends (h.isWordChar c (by simp))
  | case3 c d n ih =>
    obtain ⟨-, rest, e, hrest, he⟩ := ih h.tail
    obtain ⟨⟨b, start, hstart, hb⟩, -⟩ := hends (h.isWordChar c (by simp))
    constructor
    · exact ⟨b, _, by rw [spelled, hstart, List.cons_append], hb⟩
    · exact ⟨commandOf c ++ (blankAfter c ++ rest), e, by simp [spelled, hrest], he⟩

/-- The label of a name is trimmed: a command at its end has no blank behind it. -/
theorem nameLabel_toList {text : String} (h : IsWord text.toList) :
    (nameLabel text).toList = spelled text.toList := by
  rw [nameLabel, trim, String.toList_ofList, String.toList_ofList, trimChars]
  generalize text.toList = cs at h
  obtain ⟨⟨c, rest, hstart, hc⟩, rest', d, hend, hd⟩ := spelled_ends h
  obtain ⟨a, n, rfl⟩ := List.exists_cons_of_ne_nil h.ne_nil
  have hleft (more : List Char) :
      trimStart (spelled (a :: n) ++ more) = spelled (a :: n) ++ more := by
    rw [hstart, trimStart, List.cons_append, List.dropWhile_cons_of_neg (by simp [hc])]
  rw [flatMap_mathChar, hleft, hend]
  rcases blankAfter_cases ((a :: n).getLast (List.cons_ne_nil a n)) with hblank | hblank
  · rw [hblank, List.append_nil, trimEnd_concat hd]
  · rw [hblank, trimEnd_concat_blank (by decide), trimEnd_concat hd]

/-! ## Units up to spelling -/

/-- Every name is a word. -/
def Worded : UnitExpr → Prop
  | name text => IsWord text.toList
  | pow base _ => base.Worded
  | mul u v => u.Worded ∧ v.Worded
  | div u v => u.Worded ∧ v.Worded

/-- The unit with every mu written as the Greek letter. -/
def respelled : UnitExpr → UnitExpr
  | name text => name (String.ofList (text.toList.map respell))
  | pow base n => pow base.respelled n
  | mul u v => mul u.respelled v.respelled
  | div u v => div u.respelled v.respelled

/-- Two ways to write a mu have one label. -/
theorem label_respelled (u : UnitExpr) : label u.respelled = label u := by
  have hchar (c : Char) : mathChar (respell c) = mathChar c := by
    by_cases h : c = 'µ'
    · subst h
      rfl
    · rw [respell_of_ne h]
  induction u with
  | name text => simp [respelled, label, nameLabel, List.flatMap_map, hchar]
  | pow u n ih => rw [respelled, label, label, ih]
  | mul u v ihu ihv => rw [respelled, label, label, ihu, ihv]
  | div u v ihu ihv => rw [respelled, label, label, ihu, ihv]

/-! ## Exponents -/

/-- An exponent in a label. -/
def exponentLabel (n : Int) : List Char :=
  '^' :: '{' :: ((toString n).toList ++ ['}'])

theorem label_pow_toList (u : UnitExpr) (n : Int) :
    (label (pow u n)).toList = (label u).toList ++ exponentLabel n := by
  simp [label, exponentLabel]

theorem brace_not_mem_toString (n : Int) : '}' ∉ (toString n).toList := by
  have hbrace (j : Nat) : '}' ∉ (toString j).toList := fun hmem ↦
    absurd (isDigit_of_mem_toString hmem) (by decide)
  obtain ⟨k, ⟨-, hn⟩ | ⟨-, hn⟩⟩ := toString_int_toList n
  · rw [hn]
    exact hbrace k
  · rw [hn, List.mem_cons, not_or]
    exact ⟨by decide, hbrace k⟩

theorem exponentLabel_read {n k : Int} {s t : List Char}
    (h : exponentLabel n ++ s = exponentLabel k ++ t) : n = k ∧ s = t := by
  simp only [exponentLabel, List.cons_append, List.cons.injEq, true_and, List.append_assoc,
    List.nil_append] at h
  obtain ⟨hdigits, rfl⟩ :=
    append_cons_read (brace_not_mem_toString n) (brace_not_mem_toString k) h
  exact ⟨toString_int_injective hdigits, rfl⟩

theorem stops_exponentLabel (n : Int) (s : List Char) :
    Stops nameStops (exponentLabel n ++ s) :=
  .inr ⟨['^', '{'], by decide, _, rfl⟩

/-! ## Ends of labels -/

/-- No exponent of a unit stands in front. -/
def Unraised (t : List Char) : Prop :=
  ∀ n rest, t ≠ exponentLabel n ++ rest

/-- Where the label of a unit may end. -/
structure Ends (t : List Char) : Prop where
  stops : Stops markStops t
  unraised : Unraised t

theorem Ends.nil : Ends [] where
  stops := .inl rfl
  unraised n rest h := by simp [exponentLabel] at h

theorem ends_brace (s : List Char) : Ends ('}' :: s) where
  stops := .inr ⟨['}'], by simp [markStops, rowStops], s, rfl⟩
  unraised n rest h := by simp [exponentLabel] at h

/-! ## Units behind values -/

/-- A name with its exponent, if it has one. -/
inductive Term : UnitExpr → Prop
  | name {text : String} : IsWord text.toList → Term (name text)
  | pow {text : String} (n : Int) : IsWord text.toList → Term (pow (name text) n)

/-- A row of products and quotients that leans to the left. -/
inductive Chain : UnitExpr → Prop
  | term {u : UnitExpr} : Term u → Chain u
  | mul {u v : UnitExpr} : Chain u → Term v → Chain (mul u v)
  | div {u v : UnitExpr} : Chain u → Term v → Chain (div u v)

theorem Term.worded {u : UnitExpr} (h : Term u) : u.Worded := by
  cases h with
  | name h => exact h
  | pow _ h => exact h

theorem Chain.worded {u : UnitExpr} (h : Chain u) : u.Worded := by
  induction h with
  | term h => exact h.worded
  | mul _ hv ih => exact ⟨ih, hv.worded⟩
  | div _ hv ih => exact ⟨ih, hv.worded⟩

end UnitExpr
end Mensura
