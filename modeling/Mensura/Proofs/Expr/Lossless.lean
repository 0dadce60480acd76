import Mensura.Proofs.Expr.Longest

/-!
# Nothing is lost in scanning

The scan of a text walks over it from column to column and cuts off tokens on its way, until it is
at the end or nothing starts where it is.  `Walk` is that way through a text, and says nothing of
counters and flags; `Tiles` is what is true of its tokens.

* `Walk.scan_eq`, `exists_walk`: the scan takes such a way as far as it goes.
* `Walk.tiles`: the tokens on it are the longest slices of the text at their columns, one behind
  the other, and what is between them is blank.
* `ofText_lossless`: so a text is told by its tokens, up to the end of the text or up to the column
  of the error.
-/

set_option autoImplicit false

namespace Mensura
namespace Token

variable {text : List Char}

/-! ## The way through a text -/

/-- Whether a blank stands directly before a column. -/
def blankBefore (text : List Char) : Nat → Bool
  | 0 => false
  | column + 1 => text[column]?.any Text.isBlank

/-- The way from one column of a text to another, over blanks and the longest tokens. -/
inductive Walk (text : List Char) : Nat → List Token → Nat → Prop
  | done {column : Nat} : Walk text column [] column
  | blank {column stop : Nat} {c : Char} {us : List Token} : text[column]? = some c →
    Text.isBlank c = true → Walk text (column + 1) us stop → Walk text column us stop
  | token {column stop : Nat} {kind : TokenKind} {piece rest : List Char} {us : List Token} :
    text.drop column = piece ++ rest → Spells kind piece → Longest piece rest →
    Walk text (column + piece.length) us stop →
    Walk text column (⟨kind, textOf piece, column, blankBefore text column⟩ :: us) stop

theorem Walk.le {column stop : Nat} {us : List Token} (h : Walk text column us stop) :
    column ≤ stop := by
  induction h with
  | done => exact Nat.le_refl _
  | blank _ _ _ ih => exact Nat.le_of_succ_le ih
  | token _ _ _ _ ih => exact Nat.le_of_add_right_le ih

theorem drop_eq_cons {column : Nat} {c : Char} (h : text[column]? = some c) :
    text.drop column = c :: text.drop (column + 1) := by
  obtain ⟨hlt, rfl⟩ := List.getElem?_eq_some_iff.mp h
  exact List.drop_eq_getElem_cons hlt

/-- The characters of a token are the next ones of the text. -/
theorem getElem?_of_drop {column i : Nat} {piece rest : List Char}
    (hdrop : text.drop column = piece ++ rest) (hi : i < piece.length) :
    text[column + i]? = some piece[i] := by
  rw [← List.getElem?_drop, hdrop, List.getElem?_append_left hi, List.getElem?_eq_getElem hi]

theorem drop_add_length {column : Nat} {piece rest : List Char}
    (hdrop : text.drop column = piece ++ rest) : text.drop (column + piece.length) = rest := by
  rw [← List.drop_drop, hdrop, List.drop_left]

/-! ## Tokens hold no blanks -/

theorem Digits.not_blank {ds : List Char} (h : Digits ds) : ∀ c ∈ ds, Text.isBlank c = false := by
  intro c hc
  have hopens : opens .number c = true := by simp [opens, h c hc]
  exact not_blank_of_opens hopens

theorem IsExponent.not_blank {ex : List Char} (h : IsExponent ex) :
    ∀ c ∈ ex, Text.isBlank c = false := by
  cases h with
  | none => simp
  | @digits letter sign ds hletter hsign _ hds =>
    refine List.forall_mem_cons.mpr ⟨by rcases hletter with rfl | rfl <;> decide, ?_⟩
    refine List.forall_mem_append.mpr ⟨?_, hds.not_blank⟩
    have hsymbols : sign ⊆ symbols := by
      simp only [List.mem_cons, List.not_mem_nil, or_false] at hsign
      rcases hsign with rfl | rfl | rfl <;> simp [symbols]
    exact fun c hc ↦ not_blank_of_mem_symbols (hsymbols hc)

/-- **No token holds a blank.** -/
theorem Spells.not_blank {kind : TokenKind} {piece : List Char} (h : Spells kind piece) :
    ∀ c ∈ piece, Text.isBlank c = false := by
  cases h with
  | whole _ hds hex => exact List.forall_mem_append.mpr ⟨hds.not_blank, hex.not_blank⟩
  | fraction hds hfs _ hex =>
    refine List.forall_mem_append.mpr ⟨hds.not_blank, List.forall_mem_cons.mpr ⟨by decide, ?_⟩⟩
    exact List.forall_mem_append.mpr ⟨hfs.not_blank, hex.not_blank⟩
  | @word c cs hc hcs =>
    have hopens : opens .name c = true := by
      rcases hc with hc | rfl
      · simp [opens, hc]
      · decide
    exact List.forall_mem_cons.mpr ⟨not_blank_of_opens hopens, fun d hd ↦
      Text.not_blank_of_isWordChar (hcs d hd)⟩
  | command hletter hcs =>
    refine List.forall_mem_cons.mpr ⟨by decide, List.forall_mem_cons.mpr ⟨?_, fun d hd ↦
      Text.not_blank_of_isWordChar (hcs d hd)⟩⟩
    exact Text.not_blank_of_isWordChar (isWordChar_of_isLetter hletter)
  | symbol hc => exact List.forall_mem_singleton.mpr (not_blank_of_mem_symbols hc)
  | power =>
    have hsymbols : ['*', '*'] ⊆ symbols := by simp [symbols]
    exact fun c hc ↦ not_blank_of_mem_symbols (hsymbols hc)

/-- So behind a token there is no blank before the column. -/
theorem blankBefore_of_spells {column : Nat} {kind : TokenKind} {piece rest : List Char}
    (hdrop : text.drop column = piece ++ rest) (h : Spells kind piece) :
    blankBefore text (column + piece.length) = false := by
  obtain ⟨n, hn⟩ := Nat.exists_eq_succ_of_ne_zero (Nat.ne_of_gt (List.length_pos_iff.mpr h.ne_nil))
  have hlast : n < piece.length := by omega
  rw [hn, Nat.add_succ, blankBefore, getElem?_of_drop hdrop hlast, Option.any_some]
  exact h.not_blank _ (List.getElem_mem hlast)

/-! ## The scan goes this way -/

/-- **The scan takes the way**: it gives the tokens on it, then those that it finds behind it. -/
theorem Walk.scan_eq {column stop : Nat} {us : List Token} (h : Walk text column us stop) :
    scan 0 column (blankBefore text column) (text.drop column) =
      (scan 0 stop (blankBefore text stop) (text.drop stop)).map (us ++ ·) := by
  induction h with
  | @done column => cases scan 0 column (blankBefore text column) (text.drop column) <;> rfl
  | @blank column stop c us hc hblank _ ih =>
    have hbefore : blankBefore text (column + 1) = true := by
      rw [blankBefore, hc, Option.any_some, hblank]
    rw [hbefore] at ih
    rw [drop_eq_cons hc, scan_blank hblank, ih]
  | @token column stop kind piece rest us hdrop hspells hlongest _ ih =>
    obtain ⟨c, tail, hcons, hopens⟩ := hspells.exists_cons
    have hhead : ∀ c ∈ piece.head?, Text.isBlank c = false := by
      simpa [hcons] using not_blank_of_opens hopens
    rw [blankBefore_of_spells hdrop hspells, drop_add_length hdrop] at ih
    rw [hdrop, scan_lexeme hspells.ne_nil hhead (next?_eq_some hspells hlongest), ih]
    cases scan 0 stop (blankBefore text stop) (text.drop stop) <;> rfl

/-- From every column there is a way to the end of the text, or to where no token starts. -/
theorem exists_walk {column : Nat} (hle : column ≤ text.length) :
    ∃ us stop, Walk text column us stop ∧ stop ≤ text.length ∧ (stop = text.length ∨
      ∃ c, text[stop]? = some c ∧ Text.isBlank c = false ∧ NoToken (text.drop stop)) := by
  induction hn : text.length - column using Nat.strongRecOn generalizing column with
  | ind n ih =>
    subst hn
    rcases Nat.eq_or_lt_of_le hle with rfl | hlt
    · exact ⟨[], _, .done, Nat.le_refl _, .inl rfl⟩
    have hc : text[column]? = some text[column] := List.getElem?_eq_getElem hlt
    by_cases hblank : Text.isBlank text[column] = true
    · obtain ⟨us, stop, hwalk, hstop⟩ := ih _ (by omega) (Nat.succ_le_of_lt hlt) rfl
      exact ⟨us, stop, .blank hc hblank hwalk, hstop⟩
    cases hnext : next? (text.drop column) with
    | none =>
      exact ⟨[], column, .done, hle, .inr ⟨_, hc, by simpa using hblank, next?_eq_none.mp hnext⟩⟩
    | some found =>
      obtain ⟨kind, name, n⟩ := found
      obtain ⟨⟨hspells, hlength, hmax⟩, -⟩ := isCut_of_next? hnext
      have hsplit := (List.take_append_drop n (text.drop column)).symm
      have htake : ((text.drop column).take n).length = n := by
        rw [List.length_take, Nat.min_eq_left hlength]
      have hpos := List.length_pos_iff.mpr hspells.ne_nil
      rw [List.length_drop] at hlength
      obtain ⟨us, stop, hwalk, hstop⟩ := ih (text.length - (column + n)) (by omega) (by omega) rfl
      refine ⟨_, stop, .token hsplit hspells ?_ (by rwa [htake]), hstop⟩
      intro kind' longer hstarts hlonger
      rw [htake]
      rw [← hsplit] at hstarts
      exact hmax kind' longer hstarts hlonger

theorem blankBefore_take {column m : Nat} (h : column ≤ m) :
    blankBefore (text.take m) column = blankBefore text column := by
  cases column with
  | zero => rfl
  | succ column => rw [blankBefore, blankBefore, List.getElem?_take_of_lt h]

/-- The way through a text does not depend on what is behind it. -/
theorem Walk.take {column stop m : Nat} {us : List Token} (h : Walk text column us stop)
    (hstop : stop ≤ m) : Walk (text.take m) column us stop := by
  induction h with
  | done => exact .done
  | @blank column stop c us hc hblank hwalk ih =>
    have hlt : column < m := Nat.lt_of_lt_of_le hwalk.le hstop
    exact .blank (by rw [List.getElem?_take_of_lt hlt, hc]) hblank (ih hstop)
  | @token column stop kind piece rest us hdrop hspells hlongest hwalk ih =>
    have hle := hwalk.le
    have hdrop' : (text.take m).drop column =
        piece ++ rest.take (m - column - piece.length) := by
      rw [List.drop_take, hdrop, List.take_append, List.take_of_length_le (by omega)]
    rw [← blankBefore_take (show column ≤ m by omega)]
    refine .token hdrop' hspells ?_ (ih hstop)
    intro kind' longer hstarts hlonger
    refine hlongest kind' longer (hstarts.trans ?_) hlonger
    exact (List.prefix_append_right_inj piece).mpr (List.take_prefix _ rest)

/-! ## What the tokens tell of the text -/

/-- The characters that a token is written with: a power may be two stars. -/
def written (t : Token) (text : List Char) : List Char :=
  if t.text = "^" ∧ text[t.column]? = some '*' then ['*', '*'] else t.text.toList

/-- Whether a token stands over a column. -/
def Covers (t : Token) (text : List Char) (i : Nat) : Prop :=
  t.column ≤ i ∧ i < t.column + (t.written text).length

theorem written_eq {t : Token} {piece rest : List Char}
    (hdrop : text.drop t.column = piece ++ rest) (htext : t.text = textOf piece) :
    t.written text = piece := by
  by_cases hpower : piece = ['*', '*']
  · subst hpower
    have hstar : text[t.column + 0]? = some '*' := getElem?_of_drop hdrop (by decide)
    exact if_pos ⟨htext, hstar⟩
  · rw [textOf, if_neg hpower] at htext
    refine (if_neg ?_).trans (by rw [htext, String.toList_ofList])
    rintro ⟨hcaret, hstar⟩
    obtain rfl : piece = ['^'] := by
      rw [← String.toList_ofList (l := piece), ← htext, hcaret]
      rfl
    have hfirst : text[t.column + 0]? = some '^' := getElem?_of_drop hdrop (by decide)
    rw [Nat.add_zero, hstar] at hfirst
    exact absurd hfirst (by decide)

/-- Some tokens tell all of a text between two columns. -/
structure Tiles (text : List Char) (start stop : Nat) (us : List Token) : Prop where
  /-- Every token is what is written at its column, and nothing that starts there is longer. -/
  slice : ∀ t ∈ us, ∃ rest, text.drop t.column = t.written text ++ rest ∧
    t.text = textOf (t.written text) ∧ Spells t.kind (t.written text) ∧
    Longest (t.written text) rest
  /-- No token reaches beyond the columns. -/
  within : ∀ t ∈ us, start ≤ t.column ∧ t.column + (t.written text).length ≤ stop
  /-- Every token ends before the next ones. -/
  ordered : us.Pairwise fun t u ↦ t.column + (t.written text).length ≤ u.column
  /-- A token is spaced exactly if a blank stands before it. -/
  spaced : ∀ t ∈ us, t.spaced = blankBefore text t.column
  /-- The blanks are what stands outside all tokens. -/
  outside : ∀ i c, start ≤ i → i < stop → text[i]? = some c →
    (Text.isBlank c = true ↔ ∀ t ∈ us, ¬t.Covers text i)

theorem Tiles.nil (column : Nat) : Tiles text column column [] where
  slice := by simp
  within := by simp
  ordered := .nil
  spaced := by simp
  outside i c hle hlt _ := absurd hlt (Nat.not_lt.mpr hle)

theorem Tiles.blank {column stop : Nat} {c : Char} {us : List Token}
    (h : Tiles text (column + 1) stop us) (hc : text[column]? = some c)
    (hblank : Text.isBlank c = true) : Tiles text column stop us where
  slice := h.slice
  within t ht := ⟨Nat.le_of_succ_le (h.within t ht).1, (h.within t ht).2⟩
  ordered := h.ordered
  spaced := h.spaced
  outside i d hle hlt hd := by
    rcases Nat.eq_or_lt_of_le hle with rfl | hgt
    · obtain rfl : c = d := Option.some.inj (hc.symm.trans hd)
      refine iff_of_true hblank fun t ht hcovers ↦ ?_
      exact absurd hcovers.1 (Nat.not_le.mpr (h.within t ht).1)
    · exact h.outside i d hgt hlt hd

theorem Tiles.cons {t : Token} {stop : Nat} {piece rest : List Char} {us : List Token}
    (h : Tiles text (t.column + piece.length) stop us) (hle : t.column + piece.length ≤ stop)
    (hdrop : text.drop t.column = piece ++ rest) (htext : t.text = textOf piece)
    (hspells : Spells t.kind piece) (hlongest : Longest piece rest)
    (hspaced : t.spaced = blankBefore text t.column) : Tiles text t.column stop (t :: us) := by
  have hwritten : t.written text = piece := written_eq hdrop htext
  refine ⟨?_, ?_, ?_, ?_, ?_⟩
  · refine List.forall_mem_cons.mpr ⟨⟨rest, ?_⟩, h.slice⟩
    rw [hwritten]
    exact ⟨hdrop, htext, hspells, hlongest⟩
  · refine List.forall_mem_cons.mpr ⟨⟨Nat.le_refl _, by rwa [hwritten]⟩, fun u hu ↦ ?_⟩
    exact ⟨Nat.le_of_add_right_le (h.within u hu).1, (h.within u hu).2⟩
  · refine List.pairwise_cons.mpr ⟨fun u hu ↦ ?_, h.ordered⟩
    rw [hwritten]
    exact (h.within u hu).1
  · exact List.forall_mem_cons.mpr ⟨hspaced, h.spaced⟩
  · intro i c hstart hlt hc
    rw [List.forall_mem_cons]
    rcases Nat.lt_or_ge i (t.column + piece.length) with hinside | hbehind
    · -- The column is one of the token's own, where no blank is.
      refine iff_of_false ?_ fun hnone ↦ hnone.1 ⟨hstart, by rwa [hwritten]⟩
      obtain ⟨k, rfl⟩ := Nat.exists_eq_add_of_le hstart
      have hk : k < piece.length := by omega
      rw [getElem?_of_drop hdrop hk, Option.some.injEq] at hc
      simp [← hc, hspells.not_blank _ (List.getElem_mem hk)]
    · have hnot : ¬t.Covers text i := by
        rintro ⟨-, hcovers⟩
        rw [hwritten] at hcovers
        omega
      rw [h.outside i c hbehind hlt hc]
      exact ⟨fun hnone ↦ ⟨hnot, hnone⟩, fun hnone ↦ hnone.2⟩

/-- **The tokens on a way through a text tell all of it.** -/
theorem Walk.tiles {column stop : Nat} {us : List Token} (h : Walk text column us stop) :
    Tiles text column stop us := by
  induction h with
  | done => exact .nil _
  | blank hc hblank _ ih => exact ih.blank hc hblank
  | token hdrop hspells hlongest hwalk ih =>
    exact .cons (t := ⟨_, _, _, _⟩) ih hwalk.le hdrop rfl hspells hlongest rfl

/-- The columns increase, up to that of a token behind all others. -/
theorem Tiles.increasing {start stop : Nat} {us : List Token} {last : Token}
    (h : Tiles text start stop us) (hlast : last.column = stop) :
    (us ++ [last]).Pairwise (·.column < ·.column) := by
  have hpos : ∀ t ∈ us, t.column < t.column + (t.written text).length := by
    intro t ht
    obtain ⟨rest, -, -, hspells, -⟩ := h.slice t ht
    exact Nat.lt_add_of_pos_right (List.length_pos_iff.mpr hspells.ne_nil)
  refine List.pairwise_append.mpr ⟨?_, List.pairwise_singleton _ _, ?_⟩
  · exact h.ordered.imp_of_mem fun ht _ hle ↦ Nat.lt_of_lt_of_le (hpos _ ht) hle
  · intro t ht u hu
    rw [List.mem_singleton.mp hu, hlast]
    exact Nat.lt_of_lt_of_le (hpos t ht) (h.within t ht).2

/-! ## Whole texts -/

/-- The stop of a text: it stands where the text ends. -/
def stopOf (text : List Char) : Token :=
  ⟨.stop, "", text.length, blankBefore text text.length⟩

/-- A way to the end of a text is all there is to scan. -/
theorem Walk.ofText_eq {stop : Nat} {us : List Token} (h : Walk text 0 us stop)
    (hstop : stop = text.length) : ofText (String.ofList text) = .ok (us ++ [stopOf text]) := by
  subst hstop
  have hscan := h.scan_eq
  rw [List.drop_length, scan, blankBefore, List.drop_zero] at hscan
  rw [ofText, String.toList_ofList, hscan]
  rfl

/-- **Nothing is lost in scanning.**  The tokens of a text stand at increasing columns, the stop at
its end; each other one is the longest token that is written at its column, spaced exactly if a
blank stands before it, and the blanks are what stands outside them all.  An error is at the first
column where the scan finds neither a blank nor the start of a token: the text before it is told by
the tokens cut off so far, and these are its tokens by itself. -/
theorem ofText_lossless (text : String) :
    (∃ us, ofText text = .ok (us ++ [stopOf text.toList]) ∧
      (us ++ [stopOf text.toList]).Pairwise (·.column < ·.column) ∧
      Tiles text.toList 0 text.toList.length us) ∨
    ∃ column c us, ofText text = .error (.syntaxAt (.unexpectedCharacter c) column) ∧
      text.toList[column]? = some c ∧ Text.isBlank c = false ∧
      NoToken (text.toList.drop column) ∧ Tiles text.toList 0 column us ∧
      ofText (String.ofList (text.toList.take column)) =
        .ok (us ++ [stopOf (text.toList.take column)]) := by
  obtain ⟨us, stop, hwalk, hle, rfl | ⟨c, hc, hblank, hno⟩⟩ :=
    exists_walk (Nat.zero_le text.toList.length)
  · refine .inl ⟨us, ?_, hwalk.tiles.increasing rfl, hwalk.tiles⟩
    simpa using hwalk.ofText_eq rfl
  · refine .inr ⟨stop, c, us, ?_, hc, hblank, hno, hwalk.tiles, ?_⟩
    · have hscan := hwalk.scan_eq
      rw [drop_eq_cons hc, scan, if_neg (by simp [hblank]), ← drop_eq_cons hc,
        next?_eq_none.mpr hno] at hscan
      exact hscan
    · refine (hwalk.take (Nat.le_refl stop)).ofText_eq ?_
      rw [List.length_take, Nat.min_eq_left hle]

/-- The letter of an exponent without digits is a name, and two stars are one power. -/
example : ofText "2e ** x" = .ok [⟨.number, "2", 0, false⟩, ⟨.name, "e", 1, false⟩,
    ⟨.symbol, "^", 3, true⟩, ⟨.name, "x", 6, true⟩, ⟨.stop, "", 7, false⟩] := by
  rfl

end Token
end Mensura
