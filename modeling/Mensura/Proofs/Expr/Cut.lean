import Mensura.Proofs.Expr.Lexeme

/-!
# Texts cut into tokens

A text that is put together from numerals, names, symbols and blanks is scanned piece by piece.
`Cuts` says which tokens a piece becomes, in front of any text that continues neither a numeral nor
a name; the lemmas put pieces together.
-/

set_option autoImplicit false

namespace Mensura
namespace Token

/-- The characters behind which something new begins. -/
def separators : List Char :=
  [' ', '*', '/', '^', '(', ')', ',']

/-- A text that continues neither a numeral nor a name. -/
def Separated (rest : List Char) : Prop :=
  ∀ c ∈ rest.head?, c ∈ separators

theorem separated_nil : Separated [] := by
  simp [Separated]

theorem separated_cons {c : Char} {rest : List Char} (h : c ∈ separators) :
    Separated (c :: rest) := by
  simpa [Separated] using h

theorem Separated.append {cs rest : List Char} (h : Separated cs) (hrest : Separated rest) :
    Separated (cs ++ rest) := by
  cases cs with
  | nil => exact hrest
  | cons c cs => exact h

theorem not_isWordChar_of_mem_separators {c : Char} (h : c ∈ separators) :
    Text.isWordChar c = false := by
  have hall : separators.all (fun c ↦ !Text.isWordChar c) = true := by decide
  simpa using List.all_eq_true.mp hall c h

theorem Separated.endsNumber {rest : List Char} (h : Separated rest) : endsNumber rest = true := by
  cases rest with
  | nil => rfl
  | cons c rest =>
    have hall : separators.all (fun c ↦ Token.endsNumber [c]) = true := by decide
    exact List.all_eq_true.mp hall c (h c rfl)

theorem Separated.head_not_word {rest : List Char} (h : Separated rest) :
    ∀ c ∈ rest.head?, Text.isWordChar c = false :=
  fun c hc ↦ not_isWordChar_of_mem_separators (h c hc)

/-- The characters `cs` at a column are scanned as the tokens `ts`. -/
def Cuts (column : Nat) (spaced : Bool) (cs : List Char) (ts : List Token) : Prop :=
  ∀ rest tokens, Separated rest → scan 0 (column + cs.length) false rest = .ok tokens →
    scan 0 column spaced (cs ++ rest) = .ok (ts ++ tokens)

section Cuts

variable {column : Nat} {spaced : Bool} {cs ds : List Char} {ts us : List Token} {c : Char}

theorem Cuts.nil : Cuts column false [] [] :=
  fun _ _ _ h ↦ h

theorem Cuts.append (h : Cuts column spaced cs ts) (h' : Cuts (column + cs.length) false ds us)
    (hds : Separated ds) : Cuts column spaced (cs ++ ds) (ts ++ us) := by
  intro rest tokens hrest htokens
  rw [List.length_append, ← Nat.add_assoc] at htokens
  rw [List.append_assoc, List.append_assoc]
  exact h _ _ (hds.append hrest) (h' rest tokens hrest htokens)

theorem Cuts.blank (h : Cuts (column + 1) true cs ts) : Cuts column spaced (' ' :: cs) ts := by
  intro rest tokens hrest htokens
  rw [List.cons_append, scan_blank (by decide)]
  rw [List.length_cons, Nat.add_comm cs.length, ← Nat.add_assoc] at htokens
  exact h rest tokens hrest htokens

/-- A piece that is one token whatever stands behind it. -/
theorem Cuts.cons {text : String} (hblank : Text.isBlank c = false)
    (hnext : ∀ rest, Separated rest → next? (c :: (cs ++ rest)) = some (.symbol, text, 1))
    (h : Cuts (column + 1) false cs ts) :
    Cuts column spaced (c :: cs) (⟨.symbol, text, column, spaced⟩ :: ts) := by
  intro rest tokens hrest htokens
  rw [List.length_cons, Nat.add_comm cs.length, ← Nat.add_assoc] at htokens
  have hscan : scan 0 column spaced ([c] ++ (cs ++ rest)) = _ :=
    scan_lexeme (List.cons_ne_nil c []) (by simpa using hblank) (hnext rest hrest)
  rw [List.length_singleton, h rest tokens hrest htokens] at hscan
  exact hscan

theorem Cuts.symbol (hc : c ∈ symbols) (hstar : c ≠ '*') (h : Cuts (column + 1) false cs ts) :
    Cuts column spaced (c :: cs) (⟨.symbol, String.singleton c, column, spaced⟩ :: ts) :=
  .cons (not_blank_of_mem_symbols hc) (fun _ _ ↦ next?_symbol_of_mem hc hstar _) h

/-- A star is a token by itself if it is not followed by another one. -/
theorem Cuts.star (hne : cs ≠ []) (hhead : cs.head? ≠ some '*')
    (h : Cuts (column + 1) false cs ts) :
    Cuts column spaced ('*' :: cs) (⟨.symbol, "*", column, spaced⟩ :: ts) := by
  obtain ⟨d, ds, rfl⟩ := List.exists_cons_of_ne_nil hne
  have hd : d ≠ '*' := by simpa using hhead
  refine .cons (by decide) (fun rest _ ↦ ?_) h
  have hclass : Text.isDigit '*' = false ∧ Text.isLetter '*' = false := by decide
  simp [next?, startsNumber, startsName, hclass, hd, symbols]

theorem IsNumeral.cuts (h : IsNumeral cs) :
    Cuts column spaced cs [⟨.number, String.ofList cs, column, spaced⟩] := by
  intro rest tokens hrest htokens
  rw [scan_numeral h hrest.endsNumber, htokens]
  rfl

theorem IsName.cuts (h : IsName cs) :
    Cuts column spaced cs [⟨.name, String.ofList cs, column, spaced⟩] := by
  intro rest tokens hrest htokens
  rw [scan_name h hrest.head_not_word, htokens]
  rfl

/-- A text that is cut into tokens as a whole. -/
theorem Cuts.ofText {text : String} (h : Cuts 0 false text.toList ts) :
    ofText text = .ok (ts ++ [⟨.stop, "", text.toList.length, false⟩]) := by
  have hstop := h [] [⟨.stop, "", text.toList.length, false⟩] separated_nil
    (by rw [Nat.zero_add]; rfl)
  rwa [List.append_nil] at hstop

end Cuts

/-- Digits are a numeral. -/
theorem isNumeral_digits {cs : List Char} (hne : cs ≠ []) (h : ∀ c ∈ cs, Text.isDigit c = true) :
    IsNumeral cs where
  starts := by
    obtain ⟨c, cs, rfl⟩ := List.exists_cons_of_ne_nil hne
    simp [startsNumber, h c List.mem_cons_self]
  length := by
    have hrun : cs.takeWhile Text.isDigit = cs := by
      rw [← List.append_nil cs, List.takeWhile_append_of_pos h]
      rfl
    simp [numberLength, digitRun, hrun, fractionLength, exponentLength]

end Token
end Mensura
