import Mensura.Expr.Token
import Mensura.Proofs.Outcome
import Mensura.Proofs.Text.Run

/-!
# Lexemes

How the scan of a text behaves where a text is put together from pieces.

* `Token.scan_lexeme`: a piece that is one token takes itself off the front of a text, whatever
  stands behind it, provided it does not run on into that.  `next?_numeral` says so for numerals,
  `Lexeme` for what a blank follows.
* `Token.scan_shift`: where a text starts only shows in the columns of its tokens.
* `Token.symbol_mem_of_scan`: symbols are characters of the text.
* `Token.isName_of_scan`: names run as far as they can.
-/

set_option autoImplicit false

namespace Mensura

/-! ## Blanks among the character classes -/

namespace Text

/-- The code points of blanks. -/
def blankCodes : List Nat :=
  [9, 10, 11, 12, 13, 28, 29, 30, 31, 32, 0x85, 0xA0, 0x1680, 0x2000, 0x2001, 0x2002, 0x2003,
    0x2004, 0x2005, 0x2006, 0x2007, 0x2008, 0x2009, 0x200A, 0x2028, 0x2029, 0x202F, 0x205F, 0x3000]

theorem toNat_mem_of_isBlank {c : Char} (h : isBlank c = true) : c.toNat ∈ blankCodes := by
  simp only [blankCodes, List.mem_cons, List.not_mem_nil, or_false]
  unfold isBlank at h
  dsimp only at h
  split at h <;> simp at h <;> omega

/-- A blank is neither digit nor letter. -/
theorem not_digit_of_isBlank {c : Char} (h : isBlank c = true) :
    isDigit c = false ∧ isLetter c = false := by
  have hall : ∀ n ∈ blankCodes,
      isDigit (Char.ofNat n) = false ∧ isLetter (Char.ofNat n) = false := by
    decide +kernel
  simpa using hall _ (toNat_mem_of_isBlank h)

theorem not_isWordChar_of_isBlank {c : Char} (h : isBlank c = true) : isWordChar c = false := by
  have hall : ∀ n ∈ blankCodes, isWordChar (Char.ofNat n) = false := by
    decide +kernel
  simpa using hall _ (toNat_mem_of_isBlank h)

theorem not_blank_of_isWordChar {c : Char} (h : isWordChar c = true) : isBlank c = false := by
  rw [Bool.eq_false_iff]
  intro hb
  exact absurd h (by simp [not_isWordChar_of_isBlank hb])

end Text

namespace Token

/-! ## Scanning piece by piece -/

/-- Characters that belong to the last token are counted off. -/
theorem scan_taken {k column : Nat} {spaced : Bool} {cs : List Char} (h : k ≤ cs.length) :
    scan k column spaced cs = scan 0 (column + k) spaced (cs.drop k) := by
  induction k generalizing column cs with
  | zero => rfl
  | succ k ih =>
    cases cs with
    | nil => simp at h
    | cons c cs =>
      rw [scan, ih (by simpa using h), List.drop_succ_cons, Nat.add_assoc, Nat.add_comm 1 k]

/-- A blank shows in the next token only. -/
theorem scan_blank {column : Nat} {spaced : Bool} {c : Char} {cs : List Char}
    (h : Text.isBlank c = true) : scan 0 column spaced (c :: cs) = scan 0 (column + 1) true cs := by
  rw [scan, if_pos h]

/-- **A lexeme takes itself off the front of a text.** -/
theorem scan_lexeme {column : Nat} {spaced : Bool} {piece rest : List Char} {kind : TokenKind}
    {text : String} (hne : piece ≠ [])
    (hblank : ∀ c ∈ piece.head?, Text.isBlank c = false)
    (h : next? (piece ++ rest) = some (kind, text, piece.length)) :
    scan 0 column spaced (piece ++ rest) =
      (scan 0 (column + piece.length) false rest >>= fun ts ↦
        .ok (⟨kind, text, column, spaced⟩ :: ts)) := by
  obtain ⟨c, cs, rfl⟩ := List.exists_cons_of_ne_nil hne
  have hc : Text.isBlank c = false := hblank c (by simp)
  have hlen : (c :: cs).length - 1 ≤ (cs ++ rest).length := by simp
  rw [List.cons_append] at h ⊢
  rw [scan, if_neg (by simp [hc]), h]
  dsimp only
  rw [scan_taken hlen]
  simp [Nat.add_assoc, Nat.add_comm 1 cs.length]

/-! ## Numerals -/

/-- A text that is one number. -/
structure IsNumeral (cs : List Char) : Prop where
  /-- It starts as numbers do. -/
  starts : startsNumber cs = true
  /-- Its longest number is all of it. -/
  length : numberLength cs = cs.length

/-- Whether no number runs on into a text: it starts with none of the characters that continue
one. -/
def endsNumber : List Char → Bool
  | [] => true
  | c :: _ => !(Text.isDigit c || c = '.' || c = 'e' || c = 'E' || c = '+' || c = '-')

/-- No number runs on into a blank. -/
theorem endsNumber_blank (cs : List Char) : endsNumber (' ' :: cs) = true := by
  have : Text.isDigit ' ' = false := by decide
  simp [endsNumber, this]

/-- No number runs on into blanks. -/
theorem endsNumber_blanks_append {blanks ds : List Char}
    (h : ∀ c ∈ blanks, Text.isBlank c = true) (hds : endsNumber ds = true) :
    endsNumber (blanks ++ ds) = true := by
  cases blanks with
  | nil => exact hds
  | cons b blanks =>
    have hb := h b List.mem_cons_self
    have hdigit := (Text.not_digit_of_isBlank hb).1
    have hsign : b ≠ '.' ∧ b ≠ 'e' ∧ b ≠ 'E' ∧ b ≠ '+' ∧ b ≠ '-' := by
      refine ⟨?_, ?_, ?_, ?_, ?_⟩ <;> rintro rfl <;> revert hb <;> decide
    simp [endsNumber, hdigit, hsign]

theorem head_not_digit {rest : List Char} (h : endsNumber rest = true) :
    ∀ c ∈ rest.head?, Text.isDigit c = false := by
  intro c hc
  cases rest with
  | nil => simp at hc
  | cons d rest =>
    obtain rfl : d = c := by simpa using hc
    simp only [endsNumber, Bool.not_eq_true', Bool.or_eq_false_iff] at h
    exact h.1.1.1.1.1

theorem digitRun_append {cs rest : List Char} (h : endsNumber rest = true) :
    digitRun (cs ++ rest) = digitRun cs := by
  rw [digitRun, Text.takeWhile_append_of_head (head_not_digit h), digitRun]

theorem digitRun_le (cs : List Char) : digitRun cs ≤ cs.length :=
  (List.takeWhile_prefix _).length_le

theorem fractionLength_append {cs rest : List Char} (h : endsNumber rest = true) :
    fractionLength (cs ++ rest) = fractionLength cs := by
  cases cs with
  | nil =>
    cases rest with
    | nil => rfl
    | cons c rest =>
      have hc : c ≠ '.' := by rintro rfl; simp [endsNumber] at h
      simp [fractionLength, hc]
  | cons c cs => simp [fractionLength, digitRun_append h]

theorem signLength_append {cs rest : List Char} (h : endsNumber rest = true) :
    signLength (cs ++ rest) = signLength cs := by
  cases cs with
  | nil =>
    cases rest with
    | nil => rfl
    | cons c rest =>
      have hc : c ≠ '+' ∧ c ≠ '-' := by
        constructor <;> rintro rfl <;> simp [endsNumber] at h
      simp [signLength, hc]
  | cons c cs => rfl

theorem signLength_le (cs : List Char) : signLength cs ≤ cs.length := by
  cases cs with
  | nil => simp [signLength]
  | cons c cs =>
    simp only [signLength, List.length_cons]
    split <;> omega

theorem exponentLength_append {cs rest : List Char} (h : endsNumber rest = true) :
    exponentLength (cs ++ rest) = exponentLength cs := by
  cases cs with
  | nil =>
    cases rest with
    | nil => rfl
    | cons c rest =>
      have hc : c ≠ 'e' ∧ c ≠ 'E' := by
        constructor <;> rintro rfl <;> simp [endsNumber] at h
      simp [exponentLength, hc]
  | cons c cs =>
    simp only [List.cons_append, exponentLength, signLength_append h,
      List.drop_append_of_le_length (signLength_le cs), digitRun_append h]

theorem fractionLength_le (cs : List Char) : fractionLength cs ≤ cs.length := by
  cases cs with
  | nil => simp [fractionLength]
  | cons c cs =>
    have := digitRun_le cs
    simp only [fractionLength, List.length_cons]
    split <;> omega

/-- What stands behind a number does not change it. -/
theorem numberLength_append {cs rest : List Char} (h : endsNumber rest = true) :
    numberLength (cs ++ rest) = numberLength cs := by
  have hf := fractionLength_le (cs.drop (digitRun cs))
  have hd := digitRun_le cs
  rw [List.length_drop] at hf
  simp only [numberLength, digitRun_append h]
  rw [List.drop_append_of_le_length hd, fractionLength_append h,
    List.drop_append_of_le_length (by omega), exponentLength_append h]

theorem startsNumber_append {cs : List Char} (rest : List Char) (h : startsNumber cs = true) :
    startsNumber (cs ++ rest) = true := by
  cases cs with
  | nil => simp [startsNumber] at h
  | cons c cs =>
    cases cs with
    | nil => simpa [startsNumber] using Or.inl (by simpa [startsNumber] using h)
    | cons d cs => simpa [startsNumber] using h

theorem IsNumeral.ne_nil {cs : List Char} (h : IsNumeral cs) : cs ≠ [] := by
  rintro rfl
  simpa [startsNumber] using h.starts

/-- A numeral does not start with a blank. -/
theorem IsNumeral.head_not_blank {cs : List Char} (h : IsNumeral cs) :
    ∀ c ∈ cs.head?, Text.isBlank c = false := by
  intro c hc
  rw [Bool.eq_false_iff]
  intro hb
  cases cs with
  | nil => simp at hc
  | cons d cs =>
    obtain rfl : d = c := by simpa using hc
    have hdot : d ≠ '.' := by rintro rfl; simp [Text.isBlank] at hb
    have hs := h.starts
    simp [startsNumber, (Text.not_digit_of_isBlank hb).1, hdot] at hs

/-- **A numeral is one token**, if what stands behind it continues no number. -/
theorem next?_numeral {cs rest : List Char} (h : IsNumeral cs) (hrest : endsNumber rest = true) :
    next? (cs ++ rest) = some (.number, String.ofList cs, cs.length) := by
  obtain ⟨c, ds, rfl⟩ := List.exists_cons_of_ne_nil h.ne_nil
  have hs := startsNumber_append rest h.starts
  have hn := (numberLength_append hrest).trans h.length
  rw [List.cons_append] at hs hn ⊢
  rw [next?, if_pos hs]
  simp only [hn]
  rw [← List.cons_append, List.take_left]

/-! ## Texts before a blank -/

/-- A text that is one token where a blank follows it. -/
structure Lexeme (kind : TokenKind) (text : String) : Prop where
  /-- It is not empty. -/
  ne_nil : text.toList ≠ []
  /-- It does not start with a blank. -/
  head_not_blank : ∀ c ∈ text.toList.head?, Text.isBlank c = false
  /-- All of it is taken. -/
  next?_blank : ∀ rest,
    next? (text.toList ++ ' ' :: rest) = some (kind, text, text.toList.length)

theorem IsNumeral.lexeme {text : String} (h : IsNumeral text.toList) : Lexeme .number text where
  ne_nil := h.ne_nil
  head_not_blank := h.head_not_blank
  next?_blank rest := by rw [next?_numeral h (endsNumber_blank rest), String.ofList_toList]

/-- A text that is one name. -/
structure IsName (cs : List Char) : Prop where
  /-- It starts as names do. -/
  starts : startsName cs = true
  /-- Names come after numbers. -/
  not_number : startsNumber cs = false
  /-- Its longest name is all of it. -/
  length : 1 + (cs.tail.takeWhile Text.isWordChar).length = cs.length

/-- A name does not start with a blank. -/
theorem IsName.head_not_blank {cs : List Char} (h : IsName cs) :
    ∀ c ∈ cs.head?, Text.isBlank c = false := by
  intro c hc
  rw [Bool.eq_false_iff]
  intro hb
  cases cs with
  | nil => simp at hc
  | cons d cs =>
    obtain rfl : d = c := by simpa using hc
    have hslash : d ≠ '\\' := by rintro rfl; simp [Text.isBlank] at hb
    have hunder : d ≠ '_' := by rintro rfl; simp [Text.isBlank] at hb
    have hs := h.starts
    simp [startsName, (Text.not_digit_of_isBlank hb).2, hslash, hunder] at hs

/-- **A name is one token**, if what stands behind it does not go on with it. -/
theorem next?_name {cs rest : List Char} (h : IsName cs)
    (hrest : ∀ c ∈ rest.head?, Text.isWordChar c = false) :
    next? (cs ++ rest) = some (.name, String.ofList cs, cs.length) := by
  obtain ⟨hstarts, hnumber, hlength⟩ := h
  obtain ⟨c, cs, rfl⟩ : ∃ c ds, cs = c :: ds :=
    List.exists_cons_of_ne_nil (by rintro rfl; simp [startsName] at hstarts)
  have hdot : c ≠ '.' := by
    rintro rfl
    simp [startsName, show Text.isLetter '.' = false by decide] at hstarts
  have hnumber' : startsNumber (c :: (cs ++ rest)) = false := by
    simpa [startsNumber, hdot] using hnumber
  have hstarts' : startsName (c :: (cs ++ rest)) = true := by
    cases cs with
    | nil =>
      have hletter : Text.isLetter c = true ∨ c = '_' := by simpa [startsName] using hstarts
      simp [startsName, hletter]
    | cons d cs => simpa [startsName] using hstarts
  rw [List.tail_cons] at hlength
  rw [List.cons_append, next?, if_neg (by simp [hnumber']), if_pos hstarts']
  simp only [Text.takeWhile_append_of_head hrest, hlength]
  rw [← List.cons_append, List.take_left]

theorem IsName.ne_nil {cs : List Char} (h : IsName cs) : cs ≠ [] := by
  rintro rfl
  simpa [startsName] using h.starts

theorem IsName.lexeme {text : String} (h : IsName text.toList) : Lexeme .name text where
  ne_nil := h.ne_nil
  head_not_blank := h.head_not_blank
  next?_blank rest := by
    rw [next?_name h (by simp [show Text.isWordChar ' ' = false by decide]), String.ofList_toList]

/-! ## Where a text starts -/

/-- A token at another column. -/
def move (f : Nat → Nat) (t : Token) : Token :=
  { t with column := f t.column }

/-- The tokens of a text that starts elsewhere stand elsewhere. -/
theorem scan_move {f : Nat → Nat} {first : Nat} (hf : ∀ n, first ≤ n → f (n + 1) = f n + 1)
    {taken column : Nat} {spaced : Bool} {cs : List Char} {ts : List Token}
    (hcolumn : first ≤ column) (h : scan taken column spaced cs = .ok ts) :
    scan taken (f column) spaced cs = .ok (ts.map (move f)) := by
  induction cs generalizing taken column spaced ts with
  | nil =>
    obtain rfl : [⟨.stop, "", column, spaced⟩] = ts := by simpa [scan] using h
    simp [scan, move]
  | cons c cs ih =>
    have hcol := hf column hcolumn
    cases taken with
    | succ taken =>
      rw [scan] at h ⊢
      rw [← hcol]
      exact ih (by omega) h
    | zero =>
      rw [scan] at h ⊢
      rw [← hcol]
      split at h
      · next hb => rw [if_pos hb]; exact ih (by omega) h
      · next hb =>
        rw [if_neg hb]
        cases hn : next? (c :: cs) with
        | none => simp [hn] at h
        | some lexeme =>
          obtain ⟨kind, text, length⟩ := lexeme
          simp only [hn] at h ⊢
          obtain ⟨tokens, htokens, h⟩ := bind_eq_ok.mp h
          obtain rfl : (⟨kind, text, column, spaced⟩ : Token) :: tokens = ts := by simpa using h
          simp [ih (by omega) htokens, move]

/-- A token some columns further right. -/
def shift (k : Nat) (t : Token) : Token :=
  { t with column := t.column + k }

/-- The tokens of a text that starts further right stand further right. -/
theorem scan_shift (k : Nat) {taken column : Nat} {spaced : Bool} {cs : List Char}
    {ts : List Token} (h : scan taken column spaced cs = .ok ts) :
    scan taken (column + k) spaced cs = .ok (ts.map (shift k)) :=
  scan_move (f := (· + k)) (fun n _ ↦ Nat.add_right_comm n 1 k) (Nat.zero_le column) h

/-! ## Symbols -/

theorem symbols_cases {c : Char} (h : c ∈ symbols) :
    c = '+' ∨ c = '-' ∨ c = '*' ∨ c = '/' ∨ c = '^' ∨ c = '(' ∨ c = ')' ∨ c = ',' := by
  simpa [symbols] using h

/-- A symbol other than a star is one token, whatever stands behind it. -/
theorem next?_symbol_of_mem {c : Char} (h : c ∈ symbols) (hstar : c ≠ '*') (rest : List Char) :
    next? (c :: rest) = some (.symbol, String.singleton c, 1) := by
  have hclass : Text.isDigit c = false ∧ Text.isLetter c = false ∧ c ≠ '.' ∧ c ≠ '_' ∧
      c ≠ '\\' := by
    rcases symbols_cases h with rfl | rfl | rfl | rfl | rfl | rfl | rfl | rfl <;> decide
  obtain ⟨hdigit, hletter, hdot, hunder, hslash⟩ := hclass
  simp [next?, startsNumber, startsName, hdigit, hletter, hdot, hunder, hslash, hstar, h]

theorem not_blank_of_mem_symbols {c : Char} (h : c ∈ symbols) : Text.isBlank c = false := by
  rcases symbols_cases h with rfl | rfl | rfl | rfl | rfl | rfl | rfl | rfl <;> decide

/-- Scanning a symbol other than a star. -/
theorem scan_symbol {column : Nat} {spaced : Bool} {c : Char} {rest : List Char} (h : c ∈ symbols)
    (hstar : c ≠ '*') :
    scan 0 column spaced (c :: rest) =
      (scan 0 (column + 1) false rest >>= fun ts ↦
        .ok (⟨.symbol, String.singleton c, column, spaced⟩ :: ts)) :=
  scan_lexeme (List.cons_ne_nil c []) (by simpa using not_blank_of_mem_symbols h)
    (next?_symbol_of_mem h hstar rest)

/-- Scanning a numeral. -/
theorem scan_numeral {column : Nat} {spaced : Bool} {cs rest : List Char} (h : IsNumeral cs)
    (hrest : endsNumber rest = true) :
    scan 0 column spaced (cs ++ rest) =
      (scan 0 (column + cs.length) false rest >>= fun ts ↦
        .ok (⟨.number, String.ofList cs, column, spaced⟩ :: ts)) :=
  scan_lexeme h.ne_nil h.head_not_blank (next?_numeral h hrest)

/-- Scanning a name. -/
theorem scan_name {column : Nat} {spaced : Bool} {cs rest : List Char} (h : IsName cs)
    (hrest : ∀ c ∈ rest.head?, Text.isWordChar c = false) :
    scan 0 column spaced (cs ++ rest) =
      (scan 0 (column + cs.length) false rest >>= fun ts ↦
        .ok (⟨.name, String.ofList cs, column, spaced⟩ :: ts)) :=
  scan_lexeme h.ne_nil h.head_not_blank (next?_name h hrest)

/-- A token that starts a text as a symbol is the power or the first character. -/
theorem next?_symbol {c : Char} {cs : List Char} {text : String} {n : Nat}
    (h : next? (c :: cs) = some (.symbol, text, n)) : text = "^" ∨ text = String.singleton c := by
  simp only [next?] at h
  split at h
  · simp at h
  split at h
  · simp at h
  split at h
  · left
    simp only [Option.some.injEq, Prod.mk.injEq] at h
    exact h.2.1.symm
  split at h
  · right
    simp only [Option.some.injEq, Prod.mk.injEq] at h
    exact h.2.1.symm
  · simp at h

/-- Every token but the stop has been cut off the text somewhere. -/
theorem exists_next?_of_scan {taken column : Nat} {spaced : Bool} {cs : List Char}
    {ts : List Token} (h : scan taken column spaced cs = .ok ts) {t : Token} (ht : t ∈ ts)
    (hk : t.kind ≠ .stop) :
    ∃ c ∈ cs, ∃ rest n, next? (c :: rest) = some (t.kind, t.text, n) := by
  induction cs generalizing taken column spaced ts with
  | nil =>
    obtain rfl : [⟨.stop, "", column, spaced⟩] = ts := by simpa [scan] using h
    obtain rfl := List.mem_singleton.mp ht
    exact absurd rfl hk
  | cons c cs ih =>
    have hcons : ∀ {taken column spaced ts}, scan taken column spaced cs = .ok ts → t ∈ ts →
        ∃ d ∈ c :: cs, ∃ rest n, next? (d :: rest) = some (t.kind, t.text, n) := fun h ht ↦ by
      obtain ⟨d, hd, hnext⟩ := ih h ht
      exact ⟨d, List.mem_cons_of_mem _ hd, hnext⟩
    cases taken with
    | succ taken => exact hcons (by rwa [scan] at h) ht
    | zero =>
      rw [scan] at h
      split at h
      · exact hcons h ht
      · cases hn : next? (c :: cs) with
        | none => simp [hn] at h
        | some lexeme =>
          obtain ⟨kind, text, length⟩ := lexeme
          simp only [hn] at h
          obtain ⟨tokens, htokens, h⟩ := bind_eq_ok.mp h
          obtain rfl : (⟨kind, text, column, spaced⟩ : Token) :: tokens = ts := by simpa using h
          rcases List.mem_cons.mp ht with rfl | ht
          · exact ⟨c, List.mem_cons_self, cs, length, hn⟩
          · exact hcons htokens ht

/-- Symbols other than powers are characters of the text. -/
theorem symbol_mem_of_scan {taken column : Nat} {spaced : Bool} {cs : List Char} {ts : List Token}
    (h : scan taken column spaced cs = .ok ts) {t : Token} (ht : t ∈ ts) (hk : t.kind = .symbol) :
    t.text = "^" ∨ ∃ c ∈ cs, t.text = String.singleton c := by
  obtain ⟨c, hc, rest, n, hnext⟩ := exists_next?_of_scan h ht (by simp [hk])
  rw [hk] at hnext
  exact (next?_symbol hnext).imp_right fun e ↦ ⟨c, hc, e⟩

/-! ## Names -/

theorem isWordChar_of_isLetter {c : Char} (h : Text.isLetter c = true) :
    Text.isWordChar c = true := by
  simp [Text.isWordChar, Text.isAlphanumeric, h]

/-- A character and the word characters behind it are a name if a name starts there. -/
theorem isName_takeWhile {c : Char} {cs : List Char} (hnumber : startsNumber (c :: cs) = false)
    (hstarts : startsName (c :: cs) = true) : IsName (c :: cs.takeWhile Text.isWordChar) where
  starts := by
    cases cs with
    | nil => exact hstarts
    | cons d cs =>
      by_cases hd : Text.isLetter d = true
      · simpa [startsName, List.takeWhile_cons, isWordChar_of_isLetter hd, hd] using hstarts
      · simp only [startsName, List.head?_cons, Option.any_some, hd, Bool.and_false,
          Bool.or_false] at hstarts ⊢
        simp [hstarts]
  not_number := by
    have hdot : c ≠ '.' := by
      rintro rfl
      simp [startsName, show Text.isLetter '.' = false by decide] at hstarts
    simpa [startsNumber, hdot] using hnumber
  length := by
    have hself : (cs.takeWhile Text.isWordChar).takeWhile Text.isWordChar =
        cs.takeWhile Text.isWordChar := List.takeWhile_eq_self_iff.mpr Text.mem_takeWhile
    rw [List.tail_cons, hself, List.length_cons, Nat.add_comm]

/-- A name runs as far as it can. -/
theorem isName_of_next? {c : Char} {cs : List Char} {text : String} {n : Nat}
    (h : next? (c :: cs) = some (.name, text, n)) : IsName text.toList := by
  simp only [next?] at h
  split at h
  · simp at h
  next hnumber =>
  split at h
  · next hstarts =>
    simp only [Option.some.injEq, Prod.mk.injEq, Nat.add_comm 1, List.take_succ_cons,
      Text.take_takeWhile] at h
    rw [← h.2.1, String.toList_ofList]
    exact isName_takeWhile (by simpa using hnumber) hstarts
  split at h
  · simp at h
  split at h
  · simp at h
  · simp at h

/-- Every name token is a name. -/
theorem isName_of_scan {taken column : Nat} {spaced : Bool} {cs : List Char} {ts : List Token}
    (h : scan taken column spaced cs = .ok ts) {t : Token} (ht : t ∈ ts) (hk : t.kind = .name) :
    IsName t.text.toList := by
  obtain ⟨c, -, rest, n, hnext⟩ := exists_next?_of_scan h ht (by simp [hk])
  exact isName_of_next? (hk ▸ hnext)

end Token
end Mensura
