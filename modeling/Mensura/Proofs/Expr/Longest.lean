import Mensura.Proofs.Expr.Blank

/-!
# The longest token

What the tokens of an expression look like, said without the scan that cuts them: a number is digits
with a point among or around them and perhaps an exponent, a name is a letter, an underscore or a
command with word characters behind it, all else are symbols.

* `isCut_of_next?`: what the scan cuts off has this form, and nothing that starts there is longer.
* `next?_eq_some`, `next?_eq_none`: so the scan cuts off the longest token, and fails only where no
  token starts.
-/

set_option autoImplicit false

namespace Mensura

namespace Text

/-! ## Digits are no letters -/

/-- No number lies in two ranges of different lists. -/
def apart (ranges ranges' : List (Nat × Nat)) : Bool :=
  ranges.all fun r ↦ ranges'.all fun q ↦ r.2.blt q.1 || q.2.blt r.1

theorem not_inRanges_of_apart {ranges ranges' : List (Nat × Nat)} (h : apart ranges ranges' = true)
    {n : Nat} (hn : inRanges ranges n = true) : inRanges ranges' n = false := by
  rw [Bool.eq_false_iff]
  intro hn'
  simp only [inRanges, List.any_eq_true, Bool.and_eq_true, decide_eq_true_eq] at hn hn'
  obtain ⟨r, hr, hrn⟩ := hn
  obtain ⟨q, hq, hqn⟩ := hn'
  have hrq := List.all_eq_true.mp (List.all_eq_true.mp h r hr) q hq
  simp only [Bool.or_eq_true, Nat.blt_eq] at hrq
  omega

/-- The ranges of all digits beyond ASCII. -/
def digitRanges : List (Nat × Nat) :=
  decimalZeros.map (fun z ↦ (z, z + 9)) ++ otherDigitRanges

theorem apart_digits : apart digitRanges letterRanges = true := by
  decide +kernel

theorem isDigit_cases {c : Char} (h : isDigit c = true) :
    48 ≤ c.toNat ∧ c.toNat ≤ 57 ∨ 0x80 ≤ c.toNat ∧ inRanges digitRanges c.toNat = true := by
  simp only [isDigit, isDecimalDigit, decimalValue?, Bool.or_eq_true, Bool.and_eq_true,
    decide_eq_true_eq] at h
  rcases h with h | ⟨hlarge, hother⟩
  · split at h
    · next hascii =>
      split at h
      · next hdigit => exact .inl (by simpa using hdigit)
      · cases h
    · next hlarge =>
      rw [Option.isSome_map, List.find?_isSome] at h
      obtain ⟨z, hz, hzero⟩ := h
      refine .inr ⟨Nat.le_of_not_lt hlarge, List.any_eq_true.mpr ⟨(z, z + 9), ?_, hzero⟩⟩
      exact List.mem_append_left _ (List.mem_map_of_mem hz)
  · refine .inr ⟨hlarge, ?_⟩
    rw [digitRanges, inRanges, List.any_append]
    exact Bool.or_eq_true_iff.mpr (.inr hother)

/-- **A digit is no letter.** -/
theorem not_isLetter_of_digit {c : Char} (h : isDigit c = true) : isLetter c = false := by
  rcases isDigit_cases h with ⟨hlow, hhigh⟩ | ⟨hlarge, hrange⟩
  · have hascii : c.toNat < 0x80 := by omega
    have hsmall : ¬65 ≤ c.toNat ∧ ¬97 ≤ c.toNat := by omega
    simp [isLetter, hascii, hsmall]
  · rw [isLetter]
    simp [Nat.not_lt.mpr hlarge, not_inRanges_of_apart apart_digits hrange]

end Text

namespace Token

/-! ## Tokens by their form -/

/-- All characters are digits. -/
def Digits (cs : List Char) : Prop :=
  ∀ c ∈ cs, Text.isDigit c = true

/-- What may stand behind the digits of a number: nothing, or an exponent. -/
inductive IsExponent : List Char → Prop
  | none : IsExponent []
  | digits {letter : Char} {sign ds : List Char} : letter = 'e' ∨ letter = 'E' →
    sign ∈ [[], ['+'], ['-']] → ds ≠ [] → Digits ds → IsExponent (letter :: (sign ++ ds))

/-- Some characters are a token of a kind. -/
inductive Spells : TokenKind → List Char → Prop
  | whole {ds ex : List Char} : ds ≠ [] → Digits ds → IsExponent ex → Spells .number (ds ++ ex)
  | fraction {ds fs ex : List Char} : Digits ds → Digits fs → ds ≠ [] ∨ fs ≠ [] → IsExponent ex →
    Spells .number (ds ++ '.' :: (fs ++ ex))
  | word {c : Char} {cs : List Char} : Text.isLetter c = true ∨ c = '_' →
    (∀ d ∈ cs, Text.isWordChar d = true) → Spells .name (c :: cs)
  | command {c : Char} {cs : List Char} : Text.isLetter c = true →
    (∀ d ∈ cs, Text.isWordChar d = true) → Spells .name ('\\' :: c :: cs)
  | symbol {c : Char} : c ∈ symbols → Spells .symbol [c]
  | power : Spells .symbol ['*', '*']

/-- The text of a token: the characters it is spelled with, where two stars are a power. -/
def textOf (piece : List Char) : String :=
  if piece = ['*', '*'] then "^" else String.ofList piece

/-- No token that starts with a piece in front of a rest is longer than the piece. -/
def Longest (piece rest : List Char) : Prop :=
  ∀ kind longer, longer <+: piece ++ rest → Spells kind longer → longer.length ≤ piece.length

/-- No token starts here. -/
def NoToken (cs : List Char) : Prop :=
  ∀ kind piece, piece <+: cs → ¬Spells kind piece

/-- The first `n` characters are a token of a kind, and none that starts there is longer. -/
structure IsCut (cs : List Char) (kind : TokenKind) (n : Nat) : Prop where
  spells : Spells kind (cs.take n)
  le : n ≤ cs.length
  longest : ∀ kind' longer, longer <+: cs → Spells kind' longer → longer.length ≤ n

/-! ## First characters -/

/-- The characters that tokens of a kind start with. -/
def opens (kind : TokenKind) (c : Char) : Bool :=
  match kind with
  | .number => Text.isDigit c || c = '.'
  | .name => Text.isLetter c || c = '_' || c = '\\'
  | .symbol => symbols.contains c
  | .stop => false

theorem Spells.exists_cons {kind : TokenKind} {piece : List Char} (h : Spells kind piece) :
    ∃ c tail, piece = c :: tail ∧ opens kind c = true := by
  cases h with
  | whole hne hds _ =>
    obtain ⟨c, ds, rfl⟩ := List.exists_cons_of_ne_nil hne
    exact ⟨c, _, rfl, by simp [opens, hds c List.mem_cons_self]⟩
  | @fraction ds fs ex hds _ _ _ =>
    cases ds with
    | nil => exact ⟨'.', _, rfl, by decide⟩
    | cons c ds => exact ⟨c, _, rfl, by simp [opens, hds c List.mem_cons_self]⟩
  | word hc _ =>
    refine ⟨_, _, rfl, ?_⟩
    simp only [opens, Bool.or_eq_true, decide_eq_true_eq]
    exact .inl hc
  | command _ _ => exact ⟨'\\', _, rfl, by decide⟩
  | symbol hc => exact ⟨_, _, rfl, List.contains_iff_mem.mpr hc⟩
  | power => exact ⟨'*', _, rfl, by decide⟩

theorem Spells.ne_nil {kind : TokenKind} {piece : List Char} (h : Spells kind piece) :
    piece ≠ [] := by
  obtain ⟨c, tail, rfl, -⟩ := h.exists_cons
  exact List.cons_ne_nil c tail

/-- The first character tells the kind. -/
theorem eq_of_opens {k k' : TokenKind} {c : Char} (h : opens k c = true) (h' : opens k' c = true) :
    k = k' := by
  have hsymbol {c : Char} (hc : opens .symbol c = true) :
      opens .number c = false ∧ opens .name c = false := by
    rcases symbols_cases (List.contains_iff_mem.mp hc) with
      rfl | rfl | rfl | rfl | rfl | rfl | rfl | rfl <;> decide
  have hnumber {c : Char} (hc : opens .number c = true) : opens .name c = false := by
    simp only [opens, Bool.or_eq_true, decide_eq_true_eq] at hc
    rcases hc with hdigit | rfl
    · have hother : c ≠ '_' ∧ c ≠ '\\' := by constructor <;> rintro rfl <;> revert hdigit <;> decide
      simp [opens, Text.not_isLetter_of_digit hdigit, hother]
    · decide
  cases k <;> cases k' <;> simp_all [opens]

theorem not_blank_of_opens {kind : TokenKind} {c : Char} (h : opens kind c = true) :
    Text.isBlank c = false := by
  rw [Bool.eq_false_iff]
  intro hblank
  obtain ⟨hdigit, hletter⟩ := Text.not_digit_of_isBlank hblank
  cases kind with
  | number =>
    simp only [opens, hdigit, Bool.false_or, decide_eq_true_eq] at h
    subst h
    revert hblank
    decide
  | name =>
    simp only [opens, hletter, Bool.false_or, Bool.or_eq_true, decide_eq_true_eq] at h
    rcases h with rfl | rfl <;> revert hblank <;> decide
  | symbol => simp [not_blank_of_mem_symbols (List.contains_iff_mem.mp h)] at hblank
  | stop => cases h

/-! ## Numbers -/

theorem digits_take (cs : List Char) : Digits (cs.take (digitRun cs)) := by
  rw [digitRun, Text.take_takeWhile]
  exact Text.mem_takeWhile

theorem length_take_digitRun (cs : List Char) : (cs.take (digitRun cs)).length = digitRun cs := by
  rw [List.length_take, Nat.min_eq_left (digitRun_le cs)]

theorem digitRun_digits_append {ds : List Char} (h : Digits ds) (rest : List Char) :
    digitRun (ds ++ rest) = ds.length + digitRun rest := by
  rw [digitRun, List.takeWhile_append_of_pos h, List.length_append, digitRun]

/-- What continues a number behind its digits is no digit. -/
theorem digitRun_cons_of_mem {c : Char} (h : c ∈ ['.', 'e', 'E', '+', '-']) (cs : List Char) :
    digitRun (c :: cs) = 0 := by
  have hall : ['.', 'e', 'E', '+', '-'].all (fun c ↦ !Text.isDigit c) = true := by decide
  have hc : Text.isDigit c = false := by simpa using List.all_eq_true.mp hall c h
  simp [digitRun, hc]

theorem take_signLength (cs : List Char) : cs.take (signLength cs) ∈ [[], ['+'], ['-']] := by
  cases cs with
  | nil => simp
  | cons c cs =>
    rw [signLength]
    split
    · next hsign =>
      have hc : c = '+' ∨ c = '-' := by simpa using hsign
      rcases hc with rfl | rfl <;> simp
    · simp

theorem isExponent_take (cs : List Char) : IsExponent (cs.take (exponentLength cs)) := by
  cases cs with
  | nil => exact .none
  | cons c cs =>
    simp only [exponentLength]
    split
    · next hexponent =>
      simp only [Bool.and_eq_true, Bool.or_eq_true, decide_eq_true_eq] at hexponent
      rw [Nat.add_assoc, Nat.add_comm, List.take_succ_cons, List.take_add]
      refine .digits hexponent.1 (take_signLength cs) ?_ (digits_take _)
      refine List.ne_nil_of_length_pos ?_
      rw [length_take_digitRun]
      exact hexponent.2
    · exact .none

/-- An exponent in front is no longer than the one that is read. -/
theorem IsExponent.length_le {ex : List Char} (h : IsExponent ex) (rest : List Char) :
    ex.length ≤ exponentLength (ex ++ rest) := by
  cases h with
  | none => exact Nat.zero_le _
  | @digits letter sign ds hletter hsign hne hds =>
    have hsignLength : signLength (sign ++ (ds ++ rest)) = sign.length := by
      obtain ⟨d, ds, rfl⟩ := List.exists_cons_of_ne_nil hne
      have hd : d ≠ '+' ∧ d ≠ '-' := by
        have hdigit := hds d List.mem_cons_self
        constructor <;> rintro rfl <;> revert hdigit <;> decide
      simp only [List.mem_cons, List.not_mem_nil, or_false] at hsign
      rcases hsign with rfl | rfl | rfl <;> simp [signLength, hd]
    have hread : ((letter = 'e' || letter = 'E') && 0 < ds.length + digitRun rest) = true := by
      have hpos := List.length_pos_iff.mpr hne
      simpa using ⟨hletter, by omega⟩
    rw [List.cons_append, List.append_assoc, exponentLength]
    simp only [hsignLength, List.drop_left, digitRun_digits_append hds]
    rw [if_pos hread, List.length_cons, List.length_append]
    omega

/-- An exponent starts with a letter. -/
theorem IsExponent.head {ex : List Char} (h : IsExponent ex) (hne : ex ≠ []) :
    ∃ c tail, ex = c :: tail ∧ (c = 'e' ∨ c = 'E') := by
  cases h with
  | none => exact absurd rfl hne
  | digits hletter _ _ _ => exact ⟨_, _, rfl, hletter⟩

/-- **A number in front is no longer than the one that is read.** -/
theorem length_le_numberLength {piece : List Char} (h : Spells .number piece) (rest : List Char) :
    piece.length ≤ numberLength (piece ++ rest) := by
  cases h with
  | @whole ds ex _ hds hex =>
    simp only [List.append_assoc, numberLength, digitRun_digits_append hds]
    by_cases hnone : ex = []
    · subst hnone
      simp only [List.append_nil, List.nil_append]
      omega
    · obtain ⟨c, tail, rfl, hc⟩ := hex.head hnone
      have hrun : digitRun (c :: tail ++ rest) = 0 :=
        digitRun_cons_of_mem (by rcases hc with rfl | rfl <;> decide) _
      have hdot : fractionLength (c :: tail ++ rest) = 0 := by
        rcases hc with rfl | rfl <;> rfl
      have hle := hex.length_le rest
      rw [hrun, Nat.add_zero, List.drop_left, hdot, Nat.add_zero, List.drop_left,
        List.length_append]
      omega
  | @fraction ds fs ex hds hfs _ hex =>
    have hrun : digitRun ('.' :: (fs ++ ex) ++ rest) = 0 := digitRun_cons_of_mem (by decide) _
    have hfraction : fractionLength ('.' :: (fs ++ ex) ++ rest) =
        1 + (fs.length + digitRun (ex ++ rest)) := by
      rw [← digitRun_digits_append hfs, ← List.append_assoc]
      rfl
    simp only [List.append_assoc, numberLength, digitRun_digits_append hds, hrun]
    rw [Nat.add_zero, List.drop_left, hfraction, List.length_append, List.length_cons,
      List.length_append]
    by_cases hnone : ex = []
    · subst hnone
      simp only [List.length_nil]
      omega
    · obtain ⟨c, tail, rfl, hc⟩ := hex.head hnone
      have hrun : digitRun (c :: tail ++ rest) = 0 :=
        digitRun_cons_of_mem (by rcases hc with rfl | rfl <;> decide) _
      have hle := hex.length_le rest
      have hdrop : (ds ++ ('.' :: (fs ++ c :: tail) ++ rest)).drop
          (ds.length + (1 + (fs.length + 0))) = c :: tail ++ rest := by
        rw [List.drop_append, Nat.add_zero, Nat.add_comm 1]
        simp
      rw [hrun, hdrop]
      omega

/-- A number has a digit before its point or behind it. -/
theorem digitRun_pos_of_startsNumber {cs : List Char} (h : startsNumber cs = true)
    (hnone : digitRun cs = 0) : ∃ r, cs = '.' :: r ∧ 0 < digitRun r := by
  cases cs with
  | nil => cases h
  | cons c r =>
    have hc : Text.isDigit c = false := by
      rw [Bool.eq_false_iff]
      intro hc
      simp [digitRun, hc] at hnone
    simp only [startsNumber, hc, Bool.false_or, Bool.and_eq_true, decide_eq_true_eq] at h
    obtain ⟨rfl, hnext⟩ := h
    refine ⟨r, rfl, ?_⟩
    cases r with
    | nil => cases hnext
    | cons d r =>
      have hd : Text.isDigit d = true := by simpa using hnext
      simp [digitRun, hd]

/-- **What is read as a number is one.** -/
theorem spells_numberLength {cs : List Char} (h : startsNumber cs = true) :
    Spells .number (cs.take (numberLength cs)) := by
  have hex := isExponent_take (cs.drop (digitRun cs + fractionLength (cs.drop (digitRun cs))))
  simp only [numberLength]
  rw [List.take_add, List.take_add]
  by_cases hdot : ∃ r, cs.drop (digitRun cs) = '.' :: r
  · obtain ⟨r, hr⟩ := hdot
    have hlength : fractionLength (cs.drop (digitRun cs)) = digitRun r + 1 := by
      rw [hr, fractionLength, if_pos rfl, Nat.add_comm]
    rw [hlength] at hex ⊢
    rw [hr, List.take_succ_cons, List.append_assoc, List.cons_append]
    refine .fraction (digits_take cs) (digits_take r) ?_ hex
    rcases Nat.eq_zero_or_pos (digitRun cs) with hnone | hsome
    · obtain ⟨r', rfl, hpos⟩ := digitRun_pos_of_startsNumber h hnone
      obtain rfl : r' = r := by
        rw [hnone, List.drop_zero] at hr
        exact (List.cons.inj hr).2
      exact .inr (List.ne_nil_of_length_pos (by rwa [length_take_digitRun]))
    · exact .inl (List.ne_nil_of_length_pos (by rwa [length_take_digitRun]))
  · have hlength : fractionLength (cs.drop (digitRun cs)) = 0 := by
      cases hdrop : cs.drop (digitRun cs) with
      | nil => rfl
      | cons c r => exact if_neg (by rintro rfl; exact hdot ⟨r, hdrop⟩)
    rw [hlength] at hex ⊢
    rw [List.take_zero, List.append_nil]
    refine .whole (List.ne_nil_of_length_pos ?_) (digits_take cs) hex
    rw [length_take_digitRun]
    refine Nat.pos_of_ne_zero fun hnone ↦ ?_
    obtain ⟨r, rfl, -⟩ := digitRun_pos_of_startsNumber h hnone
    exact hdot ⟨r, by rw [hnone, List.drop_zero]⟩

/-! ## The scan cuts off the longest token -/

/-- Tokens that start in one place are of one kind. -/
theorem Spells.kind_unique {k k' : TokenKind} {piece piece' cs : List Char} (h : Spells k piece)
    (h' : Spells k' piece') (hstarts : piece <+: cs) (hstarts' : piece' <+: cs) : k = k' := by
  obtain ⟨c, tail, rfl, hc⟩ := h.exists_cons
  obtain ⟨c', tail', rfl, hc'⟩ := h'.exists_cons
  obtain ⟨rest, rfl⟩ := hstarts
  obtain rfl : c' = c := (List.cons_prefix_cons.mp hstarts').1
  exact eq_of_opens hc hc'

/-- A longer token would be of the same kind. -/
theorem IsCut.of_same_kind {cs : List Char} {kind : TokenKind} {n : Nat}
    (hspells : Spells kind (cs.take n)) (hle : n ≤ cs.length)
    (h : ∀ longer, longer <+: cs → Spells kind longer → longer.length ≤ n) :
    IsCut cs kind n where
  spells := hspells
  le := hle
  longest := by
    intro kind' longer hstarts hlonger
    obtain rfl := hlonger.kind_unique hspells hstarts (List.take_prefix n cs)
    exact h longer hstarts hlonger

theorem IsCut.number {cs : List Char} (h : startsNumber cs = true) :
    IsCut cs .number (numberLength cs) := by
  refine .of_same_kind (spells_numberLength h) (numberLength_le cs) ?_
  rintro longer ⟨rest, rfl⟩ hlonger
  exact length_le_numberLength hlonger rest

/-- A name goes on with word characters. -/
theorem Spells.tail_word {c : Char} {cs : List Char} (h : Spells .name (c :: cs)) :
    ∀ d ∈ cs, Text.isWordChar d = true := by
  cases h with
  | word _ hcs => exact hcs
  | command hletter hcs => exact List.forall_mem_cons.mpr ⟨isWordChar_of_isLetter hletter, hcs⟩

/-- Where a name starts, the word characters that follow belong to it. -/
theorem spells_takeWhile {c : Char} {rest : List Char} (h : startsName (c :: rest) = true) :
    Spells .name (c :: rest.takeWhile Text.isWordChar) := by
  simp only [startsName, Bool.or_eq_true, Bool.and_eq_true, decide_eq_true_eq] at h
  rcases h with hword | ⟨rfl, hnext⟩
  · exact .word hword Text.mem_takeWhile
  · cases rest with
    | nil => cases hnext
    | cons d rest =>
      have hd : Text.isLetter d = true := by simpa using hnext
      rw [List.takeWhile_cons_of_pos (isWordChar_of_isLetter hd)]
      exact .command hd Text.mem_takeWhile

theorem IsCut.name {c : Char} {rest : List Char} (h : startsName (c :: rest) = true) :
    IsCut (c :: rest) .name (1 + (rest.takeWhile Text.isWordChar).length) := by
  rw [Nat.add_comm]
  refine .of_same_kind ?_ (Nat.succ_le_succ (List.takeWhile_prefix _).length_le) ?_
  · rw [List.take_succ_cons, Text.take_takeWhile]
    exact spells_takeWhile h
  · intro longer hstarts hlonger
    obtain ⟨d, tail, rfl, -⟩ := hlonger.exists_cons
    obtain ⟨rfl, htail⟩ := List.cons_prefix_cons.mp hstarts
    exact Nat.succ_le_succ (Text.length_le_takeWhile htail hlonger.tail_word)

theorem IsCut.stars {rest : List Char} : IsCut ('*' :: '*' :: rest) .symbol 2 := by
  refine .of_same_kind .power (by simp) fun longer _ hlonger ↦ ?_
  cases hlonger <;> simp

/-- A symbol is one character, unless it is one of two stars. -/
theorem IsCut.symbol {c : Char} {rest : List Char} (hc : c ∈ symbols)
    (hstars : c = '*' → rest.head? ≠ some '*') : IsCut (c :: rest) .symbol 1 := by
  refine .of_same_kind (.symbol hc) (by simp) fun longer hstarts hlonger ↦ ?_
  cases hlonger with
  | symbol _ => exact Nat.le_refl 1
  | power =>
    obtain ⟨rfl, more, rfl⟩ := List.cons_prefix_cons.mp hstarts
    exact absurd rfl (hstars rfl)

/-- Numbers and names are their characters. -/
theorem Spells.textOf_eq {kind : TokenKind} {piece : List Char} (h : Spells kind piece)
    (hkind : kind ≠ .symbol) : textOf piece = String.ofList piece := by
  refine if_neg ?_
  rintro rfl
  exact hkind (h.kind_unique .power List.prefix_rfl List.prefix_rfl)

theorem textOf_singleton (c : Char) : textOf [c] = String.singleton c := by
  rw [textOf, if_neg (by simp), String.singleton_eq_ofList]

/-- What the scan cuts off is a token, and no other is longer. -/
theorem isCut_of_next? {cs : List Char} {kind : TokenKind} {text : String} {n : Nat}
    (h : next? cs = some (kind, text, n)) : IsCut cs kind n ∧ text = textOf (cs.take n) := by
  cases cs with
  | nil => cases h
  | cons c rest =>
    rw [next?] at h
    split at h
    · next hnumber =>
      cases h
      exact ⟨.number hnumber, (spells_numberLength hnumber).textOf_eq (by decide) |>.symm⟩
    split at h
    · next hname =>
      cases h
      exact ⟨.name hname, (IsCut.name hname).spells.textOf_eq (by decide) |>.symm⟩
    split at h
    · next hstars =>
      cases h
      obtain ⟨rfl, hnext⟩ : c = '*' ∧ rest.head? = some '*' := by simpa using hstars
      obtain ⟨rest, rfl⟩ := List.head?_eq_some_iff.mp hnext
      exact ⟨.stars, rfl⟩
    split at h
    · next hstars hsymbol =>
      cases h
      exact ⟨.symbol (List.contains_iff_mem.mp hsymbol) (by simpa using hstars),
        textOf_singleton c |>.symm⟩
    · cases h

theorem startsNumber_of_spells {piece : List Char} (h : Spells .number piece) (rest : List Char) :
    startsNumber (piece ++ rest) = true := by
  cases h with
  | whole hne hds _ =>
    obtain ⟨d, ds, rfl⟩ := List.exists_cons_of_ne_nil hne
    simp [startsNumber, hds d List.mem_cons_self]
  | @fraction ds fs ex hds hfs hne _ =>
    cases ds with
    | cons d ds => simp [startsNumber, hds d List.mem_cons_self]
    | nil =>
      obtain ⟨f, fs, rfl⟩ := List.exists_cons_of_ne_nil (hne.resolve_left (fun h ↦ h rfl))
      simp [startsNumber, hfs f List.mem_cons_self]

theorem startsName_of_spells {piece : List Char} (h : Spells .name piece) (rest : List Char) :
    startsName (piece ++ rest) = true := by
  cases h with
  | word hc _ => rcases hc with hc | rfl <;> simp [startsName, *]
  | command hletter _ => simp [startsName, hletter]

/-- Where a token starts, the scan cuts one off. -/
theorem exists_next?_of_spells {kind : TokenKind} {piece : List Char} (h : Spells kind piece)
    (rest : List Char) : ∃ k text n, next? (piece ++ rest) = some (k, text, n) := by
  obtain ⟨c, tail, rfl, hopens⟩ := h.exists_cons
  rw [List.cons_append, next?]
  split
  · exact ⟨_, _, _, rfl⟩
  next hnumber =>
  split
  · exact ⟨_, _, _, rfl⟩
  next hname =>
  split
  · exact ⟨_, _, _, rfl⟩
  split
  · exact ⟨_, _, _, rfl⟩
  next hsymbol =>
  -- No branch is left: the first characters are those of one of the kinds.
  cases kind with
  | number => exact absurd (startsNumber_of_spells h rest) hnumber
  | name => exact absurd (startsName_of_spells h rest) hname
  | symbol => exact absurd hopens hsymbol
  | stop => cases hopens

/-- **The scan cuts off the longest token.** -/
theorem next?_eq_some {kind : TokenKind} {piece rest : List Char} (h : Spells kind piece)
    (hlongest : Longest piece rest) :
    next? (piece ++ rest) = some (kind, textOf piece, piece.length) := by
  obtain ⟨k, text, n, hn⟩ := exists_next?_of_spells h rest
  obtain ⟨⟨hspells, hle, hmax⟩, rfl⟩ := isCut_of_next? hn
  have hlength : n = piece.length := by
    have h₁ := hmax kind piece (List.prefix_append _ _) h
    have h₂ := hlongest k _ (List.take_prefix _ _) hspells
    rw [List.length_take, Nat.min_eq_left hle] at h₂
    omega
  obtain rfl : k = kind :=
    hspells.kind_unique h (List.take_prefix n _) (List.prefix_append piece rest)
  rw [hn, hlength, List.take_left]

/-- **The scan fails exactly where no token starts.** -/
theorem next?_eq_none {cs : List Char} : next? cs = none ↔ NoToken cs := by
  constructor
  · rintro hnone kind piece ⟨rest, rfl⟩ hspells
    obtain ⟨k, text, n, hn⟩ := exists_next?_of_spells hspells rest
    rw [hn] at hnone
    cases hnone
  · intro hno
    cases hn : next? cs with
    | none => rfl
    | some found =>
      obtain ⟨kind, text, n⟩ := found
      exact absurd (isCut_of_next? hn).1.spells (hno kind _ (List.take_prefix n cs))

end Token
end Mensura
