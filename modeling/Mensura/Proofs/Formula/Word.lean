import Mensura.Formula.Parser
import Mensura.Proofs.UnitExpr.Lexeme

/-!
# Words of formulas

What the words of a formula are, said without the scan that cuts them.  A text `Splits` into words
if it is these words with blanks around them, where a parenthesis is a word of its own and every
other word goes on as long as its characters do.

* `exists_words_iff`: a text has words exactly if it splits, and they are the ones it splits into.
* `splits_intercalate`: words with a blank between any two of them split into these words.
-/

set_option autoImplicit false

namespace Mensura
namespace Formula

open Text

/-! ## Splitting -/

/-- Some characters are a word: letters, digits and underscores, perhaps behind a backslash. -/
inductive IsWord : List Char → Prop
  | cons {c : Char} {cs : List Char} : startsWord c = true → (∀ d ∈ cs, isWordChar d = true) →
    IsWord (c :: cs)

/-- A text is a row of words with blanks around them. -/
inductive Splits : List Char → List String → Prop
  | nil : Splits [] []
  | blank {c : Char} {cs : List Char} {ls : List String} :
    isBlank c = true → Splits cs ls → Splits (c :: cs) ls
  | paren {c : Char} {cs : List Char} {ls : List String} :
    c = '(' ∨ c = ')' → Splits cs ls → Splits (c :: cs) (String.singleton c :: ls)
  | word {piece rest : List Char} {ls : List String} :
    IsWord piece → (∀ c ∈ rest.head?, isWordChar c = false) → Splits rest ls →
    Splits (piece ++ rest) (String.ofList piece :: ls)

/-! ## First characters -/

theorem not_blank_of_startsWord {c : Char} (h : startsWord c = true) : isBlank c = false := by
  by_cases hslash : c = '\\'
  · subst hslash
    decide
  · refine not_blank_of_isWordChar ?_
    simpa [startsWord, isWordChar, hslash] using h

theorem ne_paren_of_startsWord {c : Char} (h : startsWord c = true) : c ≠ '(' ∧ c ≠ ')' := by
  constructor <;> rintro rfl <;> revert h <;> decide

theorem isWord_takeWhile {c : Char} (cs : List Char) (h : startsWord c = true) :
    IsWord (c :: cs.takeWhile isWordChar) :=
  .cons h mem_takeWhile

/-! ## The scan -/

/-- Characters that belong to the last word are counted off. -/
theorem scan_taken {k column : Nat} {cs : List Char} (h : k ≤ cs.length) :
    scan k column cs = scan 0 (column + k) (cs.drop k) := by
  induction k generalizing column cs with
  | zero => rfl
  | succ k ih =>
    cases cs with
    | nil => simp at h
    | cons c cs =>
      rw [scan, ih (by simpa using h), List.drop_succ_cons, Nat.add_assoc, Nat.add_comm 1 k]

/-- A text is scanned into the words it splits into. -/
theorem splits_of_scan {taken column : Nat} {cs : List Char} {ws : List Word}
    (htaken : taken ≤ cs.length) (h : scan taken column cs = .ok ws) :
    Splits (cs.drop taken) (ws.map Word.text) := by
  induction cs generalizing taken column ws with
  | nil =>
    obtain rfl : [] = ws := by simpa [scan] using h
    rw [List.drop_nil]
    exact .nil
  | cons c cs ih =>
    cases taken with
    | succ taken =>
      rw [scan] at h
      exact ih (by simpa using htaken) h
    | zero =>
      rw [List.drop_zero]
      rw [scan] at h
      split at h
      · next hblank => exact .blank hblank (ih (Nat.zero_le _) h)
      split at h
      · next hparen =>
        obtain ⟨words, hwords, h⟩ := bind_eq_ok.mp h
        obtain rfl := by simpa using h
        exact .paren (by simpa using hparen) (ih (Nat.zero_le _) hwords)
      split at h
      · next hstart =>
        obtain ⟨words, hwords, h⟩ := bind_eq_ok.mp h
        obtain rfl := by simpa using h
        have hsplits := ih (List.takeWhile_prefix isWordChar).length_le hwords
        have hword := Splits.word (isWord_takeWhile cs hstart) head_drop_takeWhile hsplits
        rwa [List.cons_append, takeWhile_append_drop, String.ofList_cons] at hword
      · simp at h

/-- What a text splits into is scanned, wherever the scan starts. -/
theorem exists_scan_of_splits {cs : List Char} {ls : List String} (h : Splits cs ls) :
    ∀ column, ∃ ws, scan 0 column cs = .ok ws ∧ ws.map Word.text = ls := by
  induction h with
  | nil => exact fun column ↦ ⟨[], by rw [scan], rfl⟩
  | blank hblank _ ih =>
    intro column
    rw [scan, if_pos hblank]
    exact ih (column + 1)
  | @paren c cs ls hparen _ ih =>
    intro column
    obtain ⟨ws, hws, hmap⟩ := ih (column + 1)
    have hblank : isBlank c = false := by rcases hparen with rfl | rfl <;> decide
    refine ⟨⟨String.singleton c, column⟩ :: ws, ?_, by rw [List.map_cons, hmap]⟩
    rw [scan, if_neg (by simp [hblank]), if_pos (by simpa using hparen), hws]
    rfl
  | @word piece rest ls hword hrest _ ih =>
    intro column
    cases hword with
    | @cons c cs hstart hchars =>
      obtain ⟨ws, hws, hmap⟩ := ih (column + 1 + cs.length)
      have hmore : (cs ++ rest).takeWhile isWordChar = cs := takeWhile_run hchars hrest
      refine ⟨⟨String.ofList (c :: cs), column⟩ :: ws, ?_, by rw [List.map_cons, hmap]⟩
      rw [List.cons_append, scan, if_neg (by simp [not_blank_of_startsWord hstart]),
        if_neg (by simp [ne_paren_of_startsWord hstart]), if_pos hstart]
      dsimp only
      rw [hmore, scan_taken (by simp), List.drop_left, hws]
      rfl

/-- **A text has words exactly if it splits, and they are the ones it splits into.** -/
theorem exists_words_iff {text : String} {ls : List String} :
    (∃ ws, words text = .ok ws ∧ ws.map Word.text = ls) ↔ Splits text.toList ls := by
  constructor
  · rintro ⟨ws, h, rfl⟩
    exact splits_of_scan (Nat.zero_le _) h
  · exact fun h ↦ exists_scan_of_splits h 0

/-- A text splits in one way at most. -/
theorem Splits.unique {text : String} {ls ls' : List String} (h : Splits text.toList ls)
    (h' : Splits text.toList ls') : ls = ls' := by
  obtain ⟨ws, hws, rfl⟩ := exists_words_iff.mpr h
  obtain ⟨ws', hws', rfl⟩ := exists_words_iff.mpr h'
  obtain rfl : ws = ws' := by simpa [hws] using hws'
  rfl

/-- Where no word starts, the text is declined. -/
theorem kind_of_scan {taken column : Nat} {cs : List Char} {e : CalcError}
    (h : scan taken column cs = .error e) : e.kind = .parse := by
  induction cs generalizing taken column with
  | nil => simp [scan] at h
  | cons c cs ih =>
    cases taken with
    | succ taken =>
      rw [scan] at h
      exact ih h
    | zero =>
      rw [scan] at h
      split at h
      · exact ih h
      split at h
      · rcases bind_eq_error.mp h with h | ⟨_, _, h⟩
        · exact ih h
        · simp at h
      split at h
      · rcases bind_eq_error.mp h with h | ⟨_, _, h⟩
        · exact ih h
        · simp at h
      · obtain rfl := Except.error.inj h
        rfl

/-! ## Words between blanks -/

/-- A word or a parenthesis. -/
def IsPiece (text : String) : Prop :=
  text = "(" ∨ text = ")" ∨ IsWord text.toList

/-- A piece in front of a blank is split off. -/
theorem IsPiece.splits {text : String} {cs : List Char} {ls : List String} (h : IsPiece text)
    (hcs : ∀ c ∈ cs.head?, isWordChar c = false) (hsplits : Splits cs ls) :
    Splits (text.toList ++ cs) (text :: ls) := by
  rcases h with rfl | rfl | h
  · exact .paren (.inl rfl) hsplits
  · exact .paren (.inr rfl) hsplits
  · simpa using Splits.word h hcs hsplits

/-- Pieces with a blank between any two of them are split into these. -/
theorem splits_intercalate {ls : List String} (h : ∀ l ∈ ls, IsPiece l) :
    Splits (" ".intercalate ls).toList ls := by
  induction ls with
  | nil => exact .nil
  | cons l ls ih =>
    obtain ⟨hl, hls⟩ := List.forall_mem_cons.mp h
    cases ls with
    | nil =>
      have hword : Splits (l.toList ++ []) [l] := hl.splits (by simp) .nil
      simpa using hword
    | cons l' ls =>
      rw [String.intercalate_cons_cons, String.toList_append, String.toList_append,
        List.append_assoc]
      exact hl.splits (by simp [show isWordChar ' ' = false by decide])
        (.blank (by decide) (ih hls))

end Formula
end Mensura
