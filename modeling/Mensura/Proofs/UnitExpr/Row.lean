import Mathlib
import Mensura.Proofs.Expr.Cut
import Mensura.Proofs.UnitExpr.Reading

/-!
# Rows of unit names

Units as they are written behind values: names, each perhaps with an exponent, joined by a blank, a
star or a slash.  A row has a derivation, and so a plan, whatever its names are; if they consist of
letters, it is read as that plan (`ofText_row`).
-/

set_option autoImplicit false

namespace Mensura
namespace UnitExpr

open Grammar Mensura.Token

/-! ## Rows -/

/-- A sign in front of digits. -/
inductive Sign
  | plus | minus
  deriving DecidableEq, Repr

def Sign.char : Sign → Char
  | plus => '+'
  | minus => '-'

namespace Row

/-- An exponent: digits, perhaps with a sign, perhaps in parentheses. -/
structure Exponent where
  sign : Option Sign
  digits : List Char
  inParentheses : Bool
  ne_nil : digits ≠ []
  decimal : ∀ c ∈ digits, Text.isDecimalDigit c = true

/-- An exponent of one digit. -/
def Exponent.digit (c : Char) (hc : Text.isDecimalDigit c = true) : Exponent :=
  ⟨none, [c], false, List.cons_ne_nil c [], List.forall_mem_singleton.mpr hc⟩

/-- The sign and the digits. -/
def Exponent.integer (x : Exponent) : List Char :=
  match x.sign with
  | none => x.digits
  | some sign => sign.char :: x.digits

/-- An exponent as it is written. -/
def Exponent.chars (x : Exponent) : List Char :=
  if x.inParentheses then '(' :: (x.integer ++ [')']) else x.integer

/-- A name, and perhaps an exponent. -/
structure Piece where
  name : List Char
  exponent : Option Exponent

/-- What is written behind a name. -/
def powerChars : Option Exponent → List Char
  | none => []
  | some x => '^' :: x.chars

/-- A piece as it is written. -/
def Piece.chars (p : Piece) : List Char :=
  p.name ++ powerChars p.exponent

end Row

/-- What is written between two names. -/
def Grammar.Link.char : Link → Char
  | beside => ' '
  | times => '*'
  | per => '/'

/-- A first name, and the names behind it, each with an exponent or without. -/
structure Row where
  first : Row.Piece
  more : List (Link × Row.Piece)

namespace Row

/-- The pieces behind the first one as they are written. -/
def moreChars : List (Link × Piece) → List Char
  | [] => []
  | (link, p) :: more => link.char :: (p.chars ++ moreChars more)

/-- A row as it is written. -/
def chars (row : Row) : List Char :=
  row.first.chars ++ moreChars row.more

/-- The text of a row. -/
def text (row : Row) : String :=
  String.ofList row.chars

/-- Every name has a property. -/
structure Named (p : List Char → Prop) (row : Row) : Prop where
  first : p row.first.name
  more : ∀ x ∈ row.more, p x.2.name

/-! ## Derivations -/

/-- A power behind a name. -/
def power (x : Exponent) : Power :=
  ⟨.caret, ⟨String.ofList x.integer, x.inParentheses⟩⟩

/-- A piece as a term. -/
def Piece.term (p : Piece) : Grammar.Term :=
  .of (.name (String.ofList p.name)) (p.exponent.map power)

/-- The terms behind the first one. -/
def terms : List (Link × Piece) → More
  | [] => .done
  | (link, p) :: more => .next link p.term (terms more)

/-- The derivation of a row. -/
def derivation (row : Row) : Expression :=
  .of row.first.term (terms row.more)

/-- The unit expression of a row; an exponent that is too long is a fault. -/
def plan (row : Row) : Except Fault UnitExpr :=
  row.derivation.plan

end Row

/-! ## Lexemes -/

/-- A lexeme that goes on with characters of a class ends where they do. -/
theorem Lexes.run {p : Char → Bool} {c : Char} {cs rest : List Char} {kind : TokenKind}
    {ls : List Lexeme} (hspells : Spells kind (c :: cs))
    (hall : ∀ {tail}, Spells kind (c :: tail) → ∀ d ∈ tail, p d = true)
    (hrest : ∀ d ∈ rest.head?, p d = false) (h : Lexes rest ls) :
    Lexes (c :: cs ++ rest) (⟨kind, String.ofList (c :: cs)⟩ :: ls) := by
  rw [← List.nil_append (c :: cs ++ rest)]
  refine .cut (by simp) hspells (fun kind' longer hlonger hkind ↦ ?_) h
  obtain ⟨d, tail, rfl, hd⟩ := hkind.exists_cons
  obtain ⟨rfl, htail⟩ := List.cons_prefix_cons.mp hlonger
  obtain ⟨_, _, hcons, hopens⟩ := hspells.exists_cons
  obtain ⟨rfl, -⟩ := List.cons.inj hcons
  obtain rfl := eq_of_opens hd hopens
  have hle : tail.length ≤ ((cs ++ rest).takeWhile p).length :=
    Text.length_le_takeWhile htail (hall hkind)
  rw [Text.takeWhile_append_of_head hrest] at hle
  exact Nat.succ_le_succ (Nat.le_trans hle (List.takeWhile_prefix p).length_le)

/-- An operator that is no star. -/
theorem Lexes.operator {c : Char} {rest : List Char} {ls : List Lexeme} (hc : isOperator c = true)
    (hstar : c ≠ '*') (h : Lexes rest ls) : Lexes (c :: rest) (symbol (String.singleton c) :: ls) :=
  .of_lexeme? [c] (by simp [lexeme?, hc, hstar]) h

/-- A star that is not followed by another one. -/
theorem Lexes.star {rest : List Char} {ls : List Lexeme} (hrest : rest.head? ≠ some '*')
    (h : Lexes rest ls) : Lexes ('*' :: rest) (symbol "*" :: ls) :=
  .of_lexeme? ['*'] (by simp [lexeme?, isOperator, hrest]) h

theorem isWordChar_of_isDecimalDigit {c : Char} (h : Text.isDecimalDigit c = true) :
    Text.isWordChar c = true := by
  simp [Text.isWordChar, Text.isAlphanumeric, Text.isDigit, h]

theorem head_not_decimal {rest : List Char} (h : Separated rest) :
    ∀ c ∈ rest.head?, Text.isDecimalDigit c = false := by
  intro c hc
  rw [Bool.eq_false_iff]
  intro hdigit
  have hword := isWordChar_of_isDecimalDigit hdigit
  rw [h.head_not_word c hc] at hword
  cases hword

/-- Letters of the Latin alphabet, at least one. -/
structure IsLetters (cs : List Char) : Prop where
  ne_nil : cs ≠ []
  isAlpha : ∀ c ∈ cs, c.isAlpha = true

theorem IsLetters.single {c : Char} (hc : c.isAlpha = true) : IsLetters [c] :=
  ⟨List.cons_ne_nil c [], List.forall_mem_singleton.mpr hc⟩

theorem isLetter_of_isAlpha {c : Char} (h : c.isAlpha = true) :
    Text.isLetter c = true ∧ Text.isDecimalDigit c = false ∧ Text.isDigit c = false := by
  have hrange : (65 ≤ c.toNat ∧ c.toNat ≤ 90) ∨ (97 ≤ c.toNat ∧ c.toNat ≤ 122) := by
    simp only [Char.isAlpha, Char.isUpper, Char.isLower, Bool.or_eq_true, Bool.and_eq_true,
      decide_eq_true_eq] at h
    exact h
  have hascii : c.toNat < 128 := by omega
  have hdigit : ¬(48 ≤ c.toNat ∧ c.toNat ≤ 57) := by omega
  have hdecimal : Text.isDecimalDigit c = false := by
    simp [Text.isDecimalDigit, Text.decimalValue?, hascii, hdigit]
  exact ⟨by simpa [Text.isLetter, hascii] using hrange, hdecimal,
    by simp [Text.isDigit, hdecimal, Nat.not_le.mpr hascii]⟩

namespace Row

variable {rest : List Char} {ls : List Lexeme}

theorem Exponent.lexes_integer (x : Exponent) (hrest : Separated rest) (h : Lexes rest ls) :
    Lexes (x.integer ++ rest) (⟨.integer, String.ofList x.integer⟩ :: ls) := by
  obtain ⟨sign, digits, inParentheses, hne, hdecimal⟩ := x
  cases sign with
  | none =>
    obtain ⟨c, cs, rfl⟩ := List.exists_cons_of_ne_nil hne
    refine .run (.digits hne hdecimal) (fun hspells ↦ ?_) (head_not_decimal hrest) h
    cases hspells with
    | digits _ h => exact fun d hd ↦ h d (List.mem_cons_of_mem _ hd)
    | signed _ _ h => exact h
  | some sign =>
    have hsign : sign.char = '+' ∨ sign.char = '-' := by cases sign <;> simp [Sign.char]
    refine .run (.signed hsign hne hdecimal) (fun hspells ↦ ?_) (head_not_decimal hrest) h
    cases hspells with
    | digits _ h => exact fun d hd ↦ h d (List.mem_cons_of_mem _ hd)
    | signed _ _ h => exact h

theorem Exponent.lexes (x : Exponent) (hrest : Separated rest) (h : Lexes rest ls) :
    Lexes (x.chars ++ rest) ((power x).exponent.lexemes ++ ls) := by
  rw [Exponent.chars, power, Grammar.Exponent.lexemes]
  split
  · rw [List.cons_append, List.append_assoc]
    exact .operator (by decide) (by decide)
      (x.lexes_integer (separated_cons (by decide)) (.operator (by decide) (by decide) h))
  · exact x.lexes_integer hrest h

theorem separated_powerChars (x : Option Exponent) (hrest : Separated rest) :
    Separated (powerChars x ++ rest) := by
  cases x with
  | none => exact hrest
  | some x => exact separated_cons (by decide)

theorem Piece.lexes (p : Piece) (hname : IsLetters p.name) (hrest : Separated rest)
    (h : Lexes rest ls) : Lexes (p.chars ++ rest) (p.term.lexemes ++ ls) := by
  obtain ⟨name, x⟩ := p
  obtain ⟨hne, halpha⟩ := hname
  obtain ⟨c, cs, rfl⟩ := List.exists_cons_of_ne_nil hne
  have hpower : Lexes (powerChars x ++ rest) (powerLexemes (x.map power) ++ ls) := by
    cases x with
    | none => exact h
    | some x => exact .operator (by decide) (by decide) (x.lexes hrest h)
  have hletter := fun d hd ↦ isLetter_of_isAlpha (halpha d hd)
  have hspells : Spells .name (c :: cs) := by
    refine .name ?_ fun d hd ↦ ?_
    · have := hletter c List.mem_cons_self
      simp [startsName, Text.isAlphanumeric, this]
    · exact isWordChar_of_isLetter (hletter d (List.mem_cons_of_mem _ hd)).1
  rw [Piece.chars, Piece.term, Grammar.Term.lexemes, Factor.lexemes, List.append_assoc]
  refine .run hspells (fun hspells ↦ ?_) (separated_powerChars x hrest).head_not_word hpower
  cases hspells with
  | name _ h => exact h

theorem separated_moreChars (more : List (Link × Piece)) (hrest : Separated rest) :
    Separated (moreChars more ++ rest) := by
  rcases more with - | ⟨⟨link, p⟩, more⟩
  · exact hrest
  · exact separated_cons (by cases link <;> decide)

theorem lexes_moreChars {more : List (Link × Piece)} (hnames : ∀ x ∈ more, IsLetters x.2.name)
    (hrest : Separated rest) (h : Lexes rest ls) :
    Lexes (moreChars more ++ rest) ((terms more).lexemes ++ ls) := by
  induction more with
  | nil =>
    rw [terms, More.lexemes]
    exact h
  | cons x more ih =>
    obtain ⟨link, p⟩ := x
    obtain ⟨hp, hmore⟩ := List.forall_mem_cons.mp hnames
    have hpiece := p.lexes hp (separated_moreChars more hrest) (ih hmore)
    have hstar : (p.chars ++ (moreChars more ++ rest)).head? ≠ some '*' := by
      obtain ⟨c, cs, hcons⟩ := List.exists_cons_of_ne_nil hp.ne_nil
      have hc := hp.isAlpha c (by rw [hcons]; exact List.mem_cons_self)
      rw [Piece.chars, hcons]
      rintro h
      obtain rfl : c = '*' := by simpa using h
      exact absurd hc (by decide)
    rw [terms, More.lexemes, moreChars, List.cons_append, List.append_assoc, List.append_assoc,
      List.append_assoc]
    cases link with
    | beside => exact hpiece.blank (by decide)
    | times => exact hpiece.star hstar
    | per => exact hpiece.operator (by decide) (by decide)

/-- **A row of names that consist of letters has its derivation.** -/
theorem parses (row : Row) (h : row.Named IsLetters) : Parses row.text row.derivation := by
  have hend : Lexes [] [] := .done (by simp)
  have hmore := lexes_moreChars h.more separated_nil hend
  have hsep := separated_moreChars row.more separated_nil
  rw [List.append_nil] at hmore hsep
  rw [List.append_nil] at hmore
  refine .of_lexes ?_
  rw [text, String.toList_ofList, chars, derivation, Expression.lexemes]
  exact row.first.lexes h.first hsep hmore

end Row

/-- **A row of names that consist of letters is read as its plan.** -/
theorem ofText_row (row : Row) (h : row.Named IsLetters) : ofText row.text = liftM row.plan :=
  (row.parses h).ofText_eq

end UnitExpr
end Mensura
