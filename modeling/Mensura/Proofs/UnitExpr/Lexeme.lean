import Mensura.Proofs.UnitExpr.Label
import Mensura.UnitExpr.Parser

/-!
# Lexemes of unit expressions

What the tokens of a unit expression are, said without the scan that cuts them.  A text `Lexes` into
lexemes if it is these lexemes, with blanks around them, and each is the longest that starts where
it starts: operators, integers with the sign directly before them, and names.

* `lexeme?_eq_some`: the scan cuts off a lexeme if and only if it is the longest one.
* `exists_tokens_iff`: so a text has tokens exactly if it lexes, and they are its lexemes.
* `Lexes.unique`: a text lexes in one way at most.
-/

set_option autoImplicit false

namespace Mensura
namespace UnitExpr

/-! ## Lexemes -/

/-- A token, wherever it stands. -/
structure Lexeme where
  kind : TokenKind
  text : String
  deriving DecidableEq, Repr

/-- What a token is without its position. -/
def Token.lexeme (t : Token) : Lexeme :=
  ⟨t.kind, t.text⟩

/-- The operators. -/
def operators : List (List Char) :=
  [['*', '*'], ['*'], ['/'], ['^'], ['('], [')']]

/-- Some characters are a lexeme of a kind. -/
inductive Spells : TokenKind → List Char → Prop
  | operator {cs : List Char} : cs ∈ operators → Spells .operator cs
  | digits {cs : List Char} : cs ≠ [] → (∀ c ∈ cs, Text.isDecimalDigit c = true) →
    Spells .integer cs
  | signed {sign : Char} {cs : List Char} : sign = '+' ∨ sign = '-' → cs ≠ [] →
    (∀ c ∈ cs, Text.isDecimalDigit c = true) → Spells .integer (sign :: cs)
  | name {c : Char} {cs : List Char} : startsName c = true →
    (∀ d ∈ cs, Text.isWordChar d = true) → Spells .name (c :: cs)

/-- No lexeme that starts with a piece in front of a rest is longer than the piece. -/
def Longest (piece rest : List Char) : Prop :=
  ∀ kind longer, longer <+: piece ++ rest → Spells kind longer → longer.length ≤ piece.length

/-- A text is a row of lexemes with blanks around them, each of them the longest where it starts. -/
inductive Lexes : List Char → List Lexeme → Prop
  | done {cs : List Char} : (∀ c ∈ cs, Text.isBlank c = true) → Lexes cs []
  | cut {blanks piece rest : List Char} {kind : TokenKind} {ls : List Lexeme} :
    (∀ c ∈ blanks, Text.isBlank c = true) → Spells kind piece → Longest piece rest →
    Lexes rest ls → Lexes (blanks ++ (piece ++ rest)) (⟨kind, String.ofList piece⟩ :: ls)

/-! ## First characters -/

/-- The characters that lexemes of a kind start with. -/
def opens (kind : TokenKind) (c : Char) : Bool :=
  match kind with
  | .operator => isOperator c
  | .integer => Text.isDecimalDigit c || c = '+' || c = '-'
  | .name => startsName c

theorem Spells.exists_cons {kind : TokenKind} {cs : List Char} (h : Spells kind cs) :
    ∃ c rest, cs = c :: rest ∧ opens kind c = true := by
  cases h with
  | operator h =>
    simp only [operators, List.mem_cons, List.not_mem_nil, or_false] at h
    rcases h with rfl | rfl | rfl | rfl | rfl | rfl <;> exact ⟨_, _, rfl, by decide⟩
  | digits hne h =>
    obtain ⟨c, rest, rfl⟩ := List.exists_cons_of_ne_nil hne
    exact ⟨c, rest, rfl, by simp [opens, h c List.mem_cons_self]⟩
  | signed hsign _ _ => exact ⟨_, _, rfl, by rcases hsign with rfl | rfl <;> decide⟩
  | name hc _ => exact ⟨_, _, rfl, hc⟩

theorem isOperator_cases {c : Char} (h : isOperator c = true) :
    c = '*' ∨ c = '/' ∨ c = '^' ∨ c = '(' ∨ c = ')' := by
  simpa [isOperator, or_assoc] using h

/-- The first character tells the kind. -/
theorem eq_of_opens {k k' : TokenKind} {c : Char} (h : opens k c = true) (h' : opens k' c = true) :
    k = k' := by
  have hname : ∀ {c}, startsName c = true →
      isOperator c = false ∧ Text.isDecimalDigit c = false ∧ c ≠ '+' ∧ c ≠ '-' := by
    intro c hc
    refine ⟨?_, by simp [startsName] at hc; exact hc.2, ?_, ?_⟩
    · rw [Bool.eq_false_iff]
      intro ho
      rcases isOperator_cases ho with rfl | rfl | rfl | rfl | rfl <;> revert hc <;> decide
    · rintro rfl
      revert hc
      decide
    · rintro rfl
      revert hc
      decide
  have hoperator : ∀ {c}, isOperator c = true → opens .integer c = false := by
    intro c hc
    rcases isOperator_cases hc with rfl | rfl | rfl | rfl | rfl <;> decide
  cases k <;> cases k' <;> simp_all [opens]

theorem not_blank_of_opens {kind : TokenKind} {c : Char} (h : opens kind c = true) :
    Text.isBlank c = false := by
  rw [Bool.eq_false_iff]
  intro hblank
  cases kind with
  | operator =>
    rcases isOperator_cases h with rfl | rfl | rfl | rfl | rfl <;> revert hblank <;> decide
  | integer =>
    have hdigit := (Text.not_digit_of_isBlank hblank).1
    simp only [opens, Bool.or_eq_true, decide_eq_true_eq] at h
    rcases h with (h | rfl) | rfl
    · simp [Text.isDigit, h] at hdigit
    · revert hblank
      decide
    · revert hblank
      decide
  | name =>
    have hword : Text.isWordChar c = true := by
      simp only [opens, startsName, Bool.and_eq_true] at h
      simp [Text.isWordChar, h.1]
    simp [Text.not_blank_of_isWordChar hword] at hblank

/-! ## The longest lexeme -/

/-- The first `n` characters are a lexeme of a kind, and none that starts there is longer. -/
structure IsCut (cs : List Char) (kind : TokenKind) (n : Nat) : Prop where
  spells : Spells kind (cs.take n)
  pos : 0 < n
  le : n ≤ cs.length
  longest : ∀ kind' longer, longer <+: cs → Spells kind' longer → longer.length ≤ n

/-- A longer lexeme would start with the same character, so it would be of the same kind. -/
theorem IsCut.of_same_kind {c : Char} {rest : List Char} {kind : TokenKind} {n : Nat}
    (hopens : opens kind c = true) (hspells : Spells kind (c :: rest.take n))
    (hle : n ≤ rest.length)
    (h : ∀ tail, tail <+: rest → Spells kind (c :: tail) → tail.length ≤ n) :
    IsCut (c :: rest) kind (n + 1) where
  spells := hspells
  pos := Nat.succ_pos n
  le := Nat.succ_le_succ hle
  longest := by
    intro kind' longer hprefix hlonger
    obtain ⟨d, tail, rfl, hd⟩ := hlonger.exists_cons
    obtain ⟨rfl, htail⟩ := List.cons_prefix_cons.mp hprefix
    obtain rfl := eq_of_opens hd hopens
    exact Nat.succ_le_succ (h tail htail hlonger)

/-- A lexeme that goes on with characters of a class goes on as long as they do. -/
theorem IsCut.of_run {p : Char → Bool} {c : Char} {rest : List Char} {kind : TokenKind}
    (hspells : Spells kind (c :: rest.takeWhile p))
    (hall : ∀ {tail}, Spells kind (c :: tail) → ∀ d ∈ tail, p d = true) :
    IsCut (c :: rest) kind (1 + (rest.takeWhile p).length) := by
  obtain ⟨_, _, hcons, hopens⟩ := hspells.exists_cons
  obtain ⟨rfl, -⟩ := List.cons.inj hcons
  rw [Nat.add_comm]
  refine .of_same_kind hopens ?_ (List.takeWhile_prefix p).length_le fun tail htail h ↦
    Text.length_le_takeWhile htail (hall h)
  rwa [Text.take_takeWhile]

theorem IsCut.stars {rest : List Char} : IsCut ('*' :: '*' :: rest) .operator 2 := by
  refine .of_same_kind (by decide) (.operator (by simp [operators])) (by simp) ?_
  intro tail _ hspells
  cases hspells with
  | operator hmem =>
    simp only [operators, List.mem_cons, List.cons.injEq, List.not_mem_nil, or_false] at hmem
    rcases hmem with h | h | h | h | h | h <;> simp [h.2]

/-- An operator of one character is all there is, unless it is one of two stars. -/
theorem IsCut.operator {c : Char} {rest : List Char} (hoperator : isOperator c = true)
    (hstars : c = '*' → rest.head? ≠ some '*') : IsCut (c :: rest) .operator 1 := by
  have hmem : [c] ∈ operators := by
    rcases isOperator_cases hoperator with rfl | rfl | rfl | rfl | rfl <;> decide
  refine .of_same_kind hoperator (.operator (by simpa using hmem)) (Nat.zero_le _) ?_
  intro tail htail hspells
  cases hspells with
  | operator hmem =>
    simp only [operators, List.mem_cons, List.cons.injEq, List.not_mem_nil, or_false] at hmem
    rcases hmem with ⟨rfl, rfl⟩ | h | h | h | h | h
    · obtain ⟨more, rfl⟩ := htail
      exact absurd rfl (hstars rfl)
    all_goals simp [h.2]

/-- What the scan cuts off is a lexeme, and no other is longer. -/
theorem isCut_of_lexeme? {cs : List Char} {kind : TokenKind} {n : Nat}
    (h : lexeme? cs = some (kind, n)) : IsCut cs kind n := by
  cases cs with
  | nil => simp [lexeme?] at h
  | cons c rest =>
    rw [lexeme?] at h
    split at h
    · next hstars =>
      obtain ⟨rfl, rfl⟩ := by simpa using h
      obtain ⟨rfl, hnext⟩ : c = '*' ∧ rest.head? = some '*' := by simpa using hstars
      obtain ⟨rest, rfl⟩ := List.head?_eq_some_iff.mp hnext
      exact .stars
    split at h
    · next hstars hoperator =>
      obtain ⟨rfl, rfl⟩ := by simpa using h
      exact .operator hoperator (by simpa using hstars)
    split at h
    · next hdigit =>
      obtain ⟨rfl, rfl⟩ := by simpa using h
      refine .of_run (.digits (by simp) (List.forall_mem_cons.mpr ⟨hdigit, Text.mem_takeWhile⟩)) ?_
      intro tail hspells
      cases hspells with
      | digits _ h => exact fun d hd ↦ h d (List.mem_cons_of_mem _ hd)
      | signed _ _ h => exact h
    split at h
    · next hdigit hsigned =>
      obtain ⟨rfl, rfl⟩ := by simpa using h
      obtain ⟨hsign, hpos⟩ : (c = '+' ∨ c = '-') ∧ 0 < digitRun rest := by simpa using hsigned
      refine .of_run (.signed hsign (List.length_pos_iff.mp hpos) Text.mem_takeWhile) ?_
      intro tail hspells
      cases hspells with
      | digits _ h => exact absurd (h c List.mem_cons_self) hdigit
      | signed _ _ h => exact h
    split at h
    · next hname =>
      obtain ⟨rfl, rfl⟩ := by simpa using h
      refine .of_run (.name hname Text.mem_takeWhile) ?_
      intro tail hspells
      cases hspells with
      | name _ h => exact h
    · simp at h

/-- Where a lexeme starts, the scan cuts one off. -/
theorem exists_lexeme?_of_spells {kind : TokenKind} {piece : List Char} (h : Spells kind piece)
    (rest : List Char) : ∃ k n, lexeme? (piece ++ rest) = some (k, n) := by
  obtain ⟨c, tail, rfl, hopens⟩ := h.exists_cons
  rw [List.cons_append, lexeme?]
  split
  · exact ⟨_, _, rfl⟩
  split
  · exact ⟨_, _, rfl⟩
  next hoperator =>
  split
  · exact ⟨_, _, rfl⟩
  next hdigit =>
  split
  · exact ⟨_, _, rfl⟩
  next hsigned =>
  split
  · exact ⟨_, _, rfl⟩
  next hname =>
  -- No branch is left: the first character is of one of the kinds.
  cases h with
  | operator _ => exact absurd hopens hoperator
  | digits _ h => exact absurd (h c List.mem_cons_self) hdigit
  | signed hsign hne h =>
    refine absurd ?_ hsigned
    have hpos : 0 < digitRun (tail ++ rest) := by
      obtain ⟨d, ds, rfl⟩ := List.exists_cons_of_ne_nil hne
      simp [digitRun, h d List.mem_cons_self]
    simpa [hpos] using hsign
  | name hc _ => exact absurd hc hname

/-- **The scan cuts off the longest lexeme.** -/
theorem lexeme?_eq_some {kind : TokenKind} {piece rest : List Char} (h : Spells kind piece)
    (hlongest : Longest piece rest) : lexeme? (piece ++ rest) = some (kind, piece.length) := by
  obtain ⟨k, n, hn⟩ := exists_lexeme?_of_spells h rest
  obtain ⟨hspells, hpos, hle, hmax⟩ := isCut_of_lexeme? hn
  have hlength : n = piece.length := by
    have h₁ := hmax kind piece (List.prefix_append _ _) h
    have h₂ := hlongest k _ (List.take_prefix _ _) hspells
    rw [List.length_take, Nat.min_eq_left hle] at h₂
    omega
  obtain ⟨c, tail, rfl, hc⟩ := h.exists_cons
  obtain ⟨d, tail', hcons, hd⟩ := hspells.exists_cons
  obtain ⟨m, rfl⟩ := Nat.exists_eq_succ_of_ne_zero (Nat.ne_of_gt hpos)
  rw [List.cons_append, List.take_succ_cons, List.cons.injEq] at hcons
  rw [hn, hlength, eq_of_opens hd (hcons.1 ▸ hc)]

/-- Blanks at the end of a text belong to no lexeme. -/
theorem lexeme?_append_blanks {c : Char} {rest blanks : List Char}
    (hblanks : ∀ c ∈ blanks.head?, Text.isBlank c = true) :
    lexeme? (c :: (rest ++ blanks)) = lexeme? (c :: rest) := by
  have hdigit : ∀ c ∈ blanks.head?, Text.isDecimalDigit c = false := by
    intro c hc
    have := (Text.not_digit_of_isBlank (hblanks c hc)).1
    simp only [Text.isDigit, Bool.or_eq_false_iff] at this
    exact this.1
  have hword : ∀ c ∈ blanks.head?, Text.isWordChar c = false := by
    intro c hc
    rw [Bool.eq_false_iff]
    intro hw
    exact absurd (hblanks c hc) (by simp [Text.not_blank_of_isWordChar hw])
  have hstar : decide ((rest ++ blanks).head? = some '*') = decide (rest.head? = some '*') := by
    cases rest with
    | nil =>
      refine decide_eq_decide.mpr ⟨fun h ↦ ?_, fun h ↦ by simp at h⟩
      exact absurd (hblanks '*' (by simpa using h)) (by decide)
    | cons d rest => rfl
  have hrun : digitRun (rest ++ blanks) = digitRun rest := by
    rw [digitRun, Text.takeWhile_append_of_head hdigit, digitRun]
  rw [lexeme?, lexeme?, hstar, hrun, Text.takeWhile_append_of_head hword]

/-! ## Texts -/

theorem Lexes.blank {c : Char} {cs : List Char} {ls : List Lexeme} (hc : Text.isBlank c = true)
    (h : Lexes cs ls) : Lexes (c :: cs) ls := by
  cases h with
  | done hcs => exact .done (List.forall_mem_cons.mpr ⟨hc, hcs⟩)
  | cut hblanks hspells hlongest h =>
    rw [← List.cons_append]
    exact .cut (List.forall_mem_cons.mpr ⟨hc, hblanks⟩) hspells hlongest h

/-- Where the scan cuts off a lexeme, a text lexes. -/
theorem Lexes.of_lexeme? {kind : TokenKind} (piece : List Char) {rest : List Char}
    {ls : List Lexeme} (h : lexeme? (piece ++ rest) = some (kind, piece.length))
    (hrest : Lexes rest ls) :
    Lexes (piece ++ rest) (⟨kind, String.ofList piece⟩ :: ls) := by
  obtain ⟨hspells, -, -, hmax⟩ := isCut_of_lexeme? h
  rw [List.take_left] at hspells
  rw [← List.nil_append (piece ++ rest)]
  exact .cut (by simp) hspells hmax hrest

section Scan

variable {text : String}

theorem scan_blanks {start position : Nat} {blanks : List Char} (rest : List Char)
    (h : ∀ c ∈ blanks, Text.isBlank c = true) :
    scan text 0 start position (blanks ++ rest) =
      scan text 0 start (position + blanks.length) rest := by
  induction blanks generalizing position with
  | nil => rfl
  | cons c blanks ih =>
    obtain ⟨hc, hblanks⟩ := List.forall_mem_cons.mp h
    rw [List.cons_append, scan, if_pos hc, ih hblanks, List.length_cons, Nat.add_assoc,
      Nat.add_comm 1]

/-- The characters of a token are counted off. -/
theorem scan_taken {k position : Nat} {cs : List Char} (h : k ≤ cs.length) :
    scan text k position position cs =
      scan text 0 (position + k) (position + k) (cs.drop k) := by
  induction k generalizing position cs with
  | zero => rfl
  | succ k ih =>
    cases cs with
    | nil => simp at h
    | cons c cs =>
      rw [scan, ih (by simpa using h), List.drop_succ_cons, Nat.add_assoc, Nat.add_comm 1 k]

/-- The tokens that are cut off are lexemes. -/
theorem lexes_of_scan {taken start position : Nat} {cs : List Char} {ts : List Token}
    (htaken : taken ≤ cs.length) (h : scan text taken start position cs = .ok ts) :
    Lexes (cs.drop taken) (ts.map Token.lexeme) := by
  induction cs generalizing taken start position ts with
  | nil =>
    obtain rfl : [] = ts := by simpa [scan] using h
    rw [List.drop_nil]
    exact .done (by simp)
  | cons c rest ih =>
    cases taken with
    | succ taken =>
      rw [scan] at h
      exact ih (by simpa using htaken) h
    | zero =>
      rw [scan] at h
      split at h
      · next hblank => exact (ih (Nat.zero_le _) h).blank hblank
      · split at h
        · next kind length hlexeme =>
          obtain ⟨tokens, htokens, h⟩ := bind_eq_ok.mp h
          obtain rfl := by simpa using h
          obtain ⟨-, hpos, hle, -⟩ := isCut_of_lexeme? hlexeme
          obtain ⟨n, rfl⟩ := Nat.exists_eq_succ_of_ne_zero (Nat.ne_of_gt hpos)
          have hsplit : (c :: rest).take (n + 1) ++ rest.drop n = c :: rest := by
            rw [List.take_succ_cons, List.cons_append, List.take_append_drop]
          have hcut := Lexes.of_lexeme? ((c :: rest).take (n + 1))
            (by rw [hsplit, hlexeme, List.length_take, Nat.min_eq_left hle])
            (ih (Nat.le_of_succ_le_succ hle) htokens)
          rwa [hsplit] at hcut
        · exact absurd h fail_ne_ok

/-- Lexemes are cut off as tokens, wherever the scan starts. -/
theorem exists_scan_of_lexes {cs : List Char} {ls : List Lexeme} (h : Lexes cs ls) :
    ∀ start position, ∃ ts, scan text 0 start position cs = .ok ts ∧ ts.map Token.lexeme = ls := by
  induction h with
  | @done cs hblank =>
    intro start position
    have hscan : scan text 0 start position (cs ++ []) =
        scan text 0 start (position + cs.length) [] := scan_blanks [] hblank
    rw [List.append_nil, scan] at hscan
    exact ⟨[], hscan, rfl⟩
  | @cut blanks piece rest kind ls hblanks hspells hlongest _ ih =>
    intro start position
    have hlexeme := lexeme?_eq_some hspells hlongest
    obtain ⟨c, tail, rfl, hopens⟩ := hspells.exists_cons
    obtain ⟨ts, hscan, hts⟩ := ih (position + blanks.length + 1 + tail.length)
      (position + blanks.length + 1 + tail.length)
    rw [List.cons_append] at hlexeme
    refine ⟨⟨kind, String.ofList (c :: tail), position + blanks.length⟩ :: ts, ?_, by
      rw [List.map_cons, hts]; rfl⟩
    rw [scan_blanks _ hblanks, List.cons_append, scan, if_neg (by simp [not_blank_of_opens hopens]),
      hlexeme]
    dsimp only
    rw [List.length_cons, Nat.add_sub_cancel, scan_taken (by simp), List.drop_left, hscan, ok_bind,
      List.take_succ_cons, List.take_left]
    rfl

/-- Blanks at the end of a text are skipped. -/
theorem scan_append_blanks {taken start position : Nat} {cs blanks : List Char}
    (hblanks : ∀ c ∈ blanks, Text.isBlank c = true) (htaken : taken ≤ cs.length) :
    scan text taken start position (cs ++ blanks) = scan text taken start position cs := by
  induction cs generalizing taken start position with
  | nil =>
    obtain rfl : taken = 0 := by simpa using htaken
    have hscan : scan text 0 start position (blanks ++ []) =
        scan text 0 start (position + blanks.length) [] := scan_blanks [] hblanks
    rwa [List.append_nil, scan] at hscan
  | cons c rest ih =>
    cases taken with
    | succ taken =>
      rw [List.cons_append, scan, scan]
      exact ih (by simpa using htaken)
    | zero =>
      have hlexeme : lexeme? (c :: (rest ++ blanks)) = lexeme? (c :: rest) :=
        lexeme?_append_blanks fun c hc ↦ hblanks c (List.mem_of_mem_head? hc)
      rw [List.cons_append, scan, scan, hlexeme, ih (Nat.zero_le _)]
      split
      · rfl
      · split
        · next kind length hl =>
          have hle := (isCut_of_lexeme? hl).le
          rw [ih (by rw [List.length_cons] at hle; omega), ← List.cons_append,
            List.take_append_of_le_length hle]
        · rfl

end Scan

/-- **A text has tokens exactly if it lexes, and its tokens are its lexemes.** -/
theorem exists_tokens_iff {text : String} {ls : List Lexeme} :
    (∃ ts, tokens text = .ok ts ∧ ts.map Token.lexeme = ls) ↔ Lexes text.toList ls := by
  obtain ⟨blanks, hblanks, htext⟩ := Text.exists_trimEnd_append text.toList
  have hscan : tokens text = scan text 0 0 0 text.toList := by
    have happend : scan text 0 0 0 (Text.trimEnd text.toList ++ blanks) =
        scan text 0 0 0 (Text.trimEnd text.toList) :=
      scan_append_blanks hblanks (Nat.zero_le _)
    rw [tokens, ← happend, ← htext]
  rw [hscan]
  constructor
  · rintro ⟨ts, h, rfl⟩
    exact lexes_of_scan (Nat.zero_le _) h
  · exact fun h ↦ exists_scan_of_lexes h 0 0

/-- A text lexes in one way at most. -/
theorem Lexes.unique {text : String} {ls ls' : List Lexeme} (h : Lexes text.toList ls)
    (h' : Lexes text.toList ls') : ls = ls' := by
  obtain ⟨ts, hts, rfl⟩ := exists_tokens_iff.mpr h
  obtain ⟨ts', hts', rfl⟩ := exists_tokens_iff.mpr h'
  obtain rfl : ts = ts' := by simpa [hts] using hts'
  rfl

end UnitExpr
end Mensura
