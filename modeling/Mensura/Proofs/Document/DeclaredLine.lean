import Mathlib
import Mensura.Proofs.Document.PrintedLine

/-!
# A declaration with any spacing

A line of a name, an equals sign and an expression declares the name, however many blanks stand
around the equals sign, unless one of the statements that are tried before takes the line.  These
begin with a word, and a word at the start of such a line is the start of its name
(`after?_declared`).

* `alias` needs a name behind blanks and never finds one; nor is there anything to print.
* `digits` needs blanks behind it, and then one word up to the end of the line: it takes the
  declarations of `digits` with a blank before the equals sign and none behind it.
* `ttable` takes every line that starts with it, so every name that does.

Both of them fail on the line that they have taken (`Captured`); everything else is declared
(`ofLine_declaration`).
-/

set_option autoImplicit false

namespace Mensura
namespace Statement

/-! ## Names -/

/-- Whether a character may go on with a name. -/
def continuesName (c : Char) : Bool :=
  c.isAlphanum || c = '_'

/-- The names that can be declared: an optional backslash, then a letter or underscore, then
letters, digits and underscores, all of them ASCII. -/
inductive DeclaredName : List Char → Prop
  | plain {c : Char} {cs : List Char} :
    startsName c = true → (∀ d ∈ cs, continuesName d = true) → DeclaredName (c :: cs)
  | command {c : Char} {cs : List Char} :
    startsName c = true → (∀ d ∈ cs, continuesName d = true) → DeclaredName ('\\' :: c :: cs)

theorem DeclaredName.of_all {c : Char} {cs : List Char} (hc : startsName c = true)
    (hcs : cs.all continuesName = true) : DeclaredName (c :: cs) :=
  .plain hc (List.all_eq_true.mp hcs)

theorem continuesName_of_startsName {c : Char} (h : startsName c = true) :
    continuesName c = true := by
  rw [startsName, Bool.or_eq_true] at h
  rw [continuesName, Char.isAlphanum, Bool.or_eq_true, Bool.or_eq_true]
  exact h.imp_left .inl

theorem continuesName_iff {c : Char} : continuesName c = true ↔
    (65 ≤ c.toNat ∧ c.toNat ≤ 90) ∨ (97 ≤ c.toNat ∧ c.toNat ≤ 122) ∨
      (48 ≤ c.toNat ∧ c.toNat ≤ 57) ∨ c = '_' := by
  simp [continuesName, Char.isAlphanum, Char.isAlpha, Char.isUpper, Char.isLower, Char.isDigit,
    UInt32.le_iff_toNat_le, or_assoc]

theorem not_isBlank_of_continuesName {c : Char} (h : continuesName c = true) :
    Text.isBlank c = false := by
  have hascii (h : 48 ≤ c.toNat ∧ c.toNat ≤ 122) : Text.isBlank c = false := by
    simp only [Text.isBlank, show c.toNat < 0x80 by omega, if_true]
    simp only [Bool.or_eq_false_iff, Bool.and_eq_false_iff, decide_eq_false_iff_not]
    omega
  rcases continuesName_iff.mp h with h | h | h | rfl
  · exact hascii (by omega)
  · exact hascii (by omega)
  · exact hascii (by omega)
  · decide

namespace DeclaredName

variable {name : List Char}

/-- All of a name but a backslash goes on with it. -/
theorem continuesName_of_mem (h : DeclaredName name) {c : Char} (hc : c ∈ name) :
    c = '\\' ∨ continuesName c = true := by
  cases h with
  | plain hstart hmore =>
    rcases List.mem_cons.mp hc with rfl | hc
    · exact .inr (continuesName_of_startsName hstart)
    · exact .inr (hmore c hc)
  | command hstart hmore =>
    rcases List.mem_cons.mp hc with rfl | hc
    · exact .inl rfl
    rcases List.mem_cons.mp hc with rfl | hc
    · exact .inr (continuesName_of_startsName hstart)
    · exact .inr (hmore c hc)

theorem not_isBlank_of_mem (h : DeclaredName name) {c : Char} (hc : c ∈ name) :
    Text.isBlank c = false := by
  rcases h.continuesName_of_mem hc with rfl | hname
  · decide
  · exact not_isBlank_of_continuesName hname

theorem ne_of_mem (h : DeclaredName name) {c d : Char} (hc : c ∈ name)
    (hd : d ≠ '\\' ∧ continuesName d = false) : c ≠ d := by
  rintro rfl
  rcases h.continuesName_of_mem hc with rfl | hname
  · exact hd.1 rfl
  · exact absurd hname (by simp [hd.2])

/-- A name is cut off the text in front of which it stands. -/
theorem name?_append (h : DeclaredName name) {rest : List Char}
    (hrest : ∀ c ∈ rest.head?, continuesName c = false) :
    name? (name ++ rest) = some (name, rest) := by
  have htake {cs : List Char} (hcs : ∀ d ∈ cs, continuesName d = true) :
      (cs ++ rest).takeWhile (fun c ↦ c.isAlphanum || c = '_') = cs := by
    change (cs ++ rest).takeWhile continuesName = cs
    exact Text.takeWhile_run hcs hrest
  cases h with
  | plain hstart hmore =>
    rename_i c cs
    have hslash : c ≠ '\\' := by
      rintro rfl
      exact absurd hstart (by decide)
    simp [name?, hslash, hstart, htake hmore]
  | command hstart hmore => simp [name?, hstart, htake hmore]

end DeclaredName

/-! ## The line -/

/-- The line of a declaration: a name, blanks, an equals sign, and what is declared. -/
def declaration (name before value : List Char) : String :=
  String.ofList (name ++ (before ++ '=' :: value))

section Line

variable {name before value : List Char} (hname : DeclaredName name)
  (hbefore : ∀ b ∈ before, Text.isBlank b = true)

include hbefore

theorem trimStart_equals (value : List Char) :
    Text.trimStart (before ++ '=' :: value) = '=' :: value := by
  rw [Text.trimStart_blanks_append hbefore, Text.trimStart_cons (by decide)]

/-- What stands behind a name does not go on with it. -/
theorem head_equals (value : List Char) :
    ∀ c ∈ (before ++ '=' :: value).head?, continuesName c = false := by
  intro c hc
  cases before with
  | nil =>
    obtain rfl : '=' = c := by simpa using hc
    decide
  | cons b before =>
    obtain rfl : b = c := by simpa using hc
    rw [Bool.eq_false_iff]
    intro hb
    have hblank := hbefore b List.mem_cons_self
    simp [not_isBlank_of_continuesName hb] at hblank

/-- A word at the start of the line is the start of its name. -/
theorem after?_declared {word : String} (hword : word.toList.all continuesName = true)
    {cs : List Char} (h : after? word (name ++ (before ++ '=' :: value)) = some cs) :
    ∃ more, name = word.toList ++ more ∧ cs = more ++ (before ++ '=' :: value) := by
  rw [after?] at h
  split at h
  · next hprefix =>
    obtain ⟨rest, hrest⟩ := List.isPrefixOf_iff_prefix.mp hprefix
    have hcs := Option.some.inj h
    rw [← hrest, ← String.length_toList, List.drop_left] at hcs
    rcases List.append_eq_append_iff.mp hrest with ⟨more, hmore, hcs'⟩ | ⟨more, hmore, hcs'⟩
    · exact ⟨more, hmore, hcs ▸ hcs'⟩
    · cases more with
      | nil =>
        exact ⟨[], by simpa using hmore.symm, by simpa [← hcs] using hcs'.symm⟩
      | cons c more =>
        have hc : continuesName c = true := List.all_eq_true.mp hword c (by simp [hmore])
        have hc' := head_equals hbefore value c (by simp [hcs'])
        exact absurd hc (by simp [hc'])
  · cases h

include hname

/-- A word with blanks behind it is all of the name. -/
theorem afterBlanks?_declared {word : String}
    (hword : word.toList.all continuesName = true) {cs rest : List Char}
    (h : after? word (name ++ (before ++ '=' :: value)) = some cs)
    (hrest : afterBlanks? cs = some rest) :
    name = word.toList ∧ before ≠ [] ∧ rest = '=' :: value := by
  obtain ⟨more, rfl, rfl⟩ := after?_declared hbefore hword h
  cases more with
  | cons c more =>
    have hc := hname.not_isBlank_of_mem (c := c) (by simp)
    simp [afterBlanks?, hc] at hrest
  | nil =>
    cases before with
    | nil => simp [afterBlanks?, show Text.isBlank '=' = false by decide] at hrest
    | cons b before =>
      have hb := hbefore b List.mem_cons_self
      have htrim := trimStart_equals hbefore value
      rw [List.cons_append] at htrim
      refine ⟨by simp, by simp, ?_⟩
      simpa [afterBlanks?, hb, htrim, eq_comm] using hrest

theorem aliasParts?_declared : aliasParts? (name ++ (before ++ '=' :: value)) = none := by
  rw [Option.eq_none_iff_forall_ne_some]
  intro parts h
  obtain ⟨cs, hcs, h⟩ := Option.bind_eq_some_iff.mp h
  obtain ⟨rest, hrest, h⟩ := Option.bind_eq_some_iff.mp h
  obtain ⟨-, -, rfl⟩ := afterBlanks?_declared hname hbefore (by decide) hcs hrest
  cases h

theorem declarePrintParts?_declared (hvalue : '=' ∉ value) :
    declarePrintParts? (name ++ (before ++ '=' :: value)) = none := by
  rw [Option.eq_none_iff_forall_ne_some]
  intro parts h
  rw [declarePrintParts?] at h
  obtain ⟨⟨_, _⟩, hcut, h⟩ := Option.bind_eq_some_iff.mp h
  rw [hname.name?_append (head_equals hbefore value)] at hcut
  obtain ⟨rfl, rfl⟩ := Prod.mk.inj (Option.some.inj hcut)
  obtain ⟨rest, hrest, h⟩ := Option.bind_eq_some_iff.mp h
  obtain ⟨⟨left, right⟩, hsplit, -⟩ := Option.bind_eq_some_iff.mp h
  obtain rfl : value = rest := by simpa [afterSymbol?, trimStart_equals hbefore] using hrest
  obtain ⟨rfl, -⟩ := atEquals?_eq_some hsplit
  simp at hvalue

/-- There is nothing to print unless a question mark begins what is declared. -/
theorem printParts?_declared (hvalue : ∀ c ∈ (Text.trimStart value).head?, c ≠ '?') :
    printParts? (name ++ (before ++ '=' :: value)) = none := by
  have hhint : hintPart? value = none := by
    rw [hintPart?, afterSymbol?]
    cases hcs : Text.trimStart value with
    | nil => rfl
    | cons c cs => simp [hvalue c (by simp [hcs])]
  have hequals : '=' ∉ name ++ before := by
    intro hmem
    rcases List.mem_append.mp hmem with hmem | hmem
    · exact hname.ne_of_mem hmem (by decide) rfl
    · exact absurd (hbefore _ hmem) (by decide)
  have hsplit : atEquals? (name ++ (before ++ '=' :: value)) = some (name ++ before, value) := by
    have htake : (name ++ before ++ '=' :: value).takeWhile (· ≠ '=') = name ++ before := by
      refine Text.takeWhile_run (fun c hc ↦ ?_) (by simp)
      simpa using fun h : c = '=' ↦ hequals (h ▸ hc)
    rw [← List.append_assoc, atEquals?, htake, List.drop_left]
  rw [printParts?, hsplit]
  simp [hhint]

theorem declareParts?_declared {c : Char} {cs : List Char} (hvalue : '=' ∉ value)
    (htrim : Text.trimStart value = c :: cs) :
    declareParts? (name ++ (before ++ '=' :: value)) = some (name, c :: cs) := by
  have hne : value ≠ [] := by
    rintro rfl
    cases htrim
  rw [declareParts?, hname.name?_append (head_equals hbefore value)]
  simp [afterSymbol?, trimStart_equals hbefore, hne, hvalue, htrim]

/-- `ttable` finds no bracket behind it. -/
theorem tableParts?_declared : tableParts? (name ++ (before ++ '=' :: value)) = none := by
  rw [Option.eq_none_iff_forall_ne_some]
  intro parts h
  rw [tableParts?] at h
  obtain ⟨cs, hcs, h⟩ := Option.bind_eq_some_iff.mp h
  obtain ⟨more, rfl, rfl⟩ := after?_declared hbefore (by decide) hcs
  obtain ⟨⟨args, rest⟩, hargs, -⟩ := Option.bind_eq_some_iff.mp h
  rw [bracketed?] at hargs
  obtain ⟨rest', hopen, -⟩ := Option.bind_eq_some_iff.mp hargs
  cases more with
  | nil => simp [afterSymbol?, trimStart_equals hbefore] at hopen
  | cons d more =>
    have hd := hname.not_isBlank_of_mem (c := d) (by simp)
    have hbracket : d ≠ '[' := hname.ne_of_mem (c := d) (by simp) (by decide)
    simp [afterSymbol?, Text.trimStart_cons hd, hbracket] at hopen

end Line

/-! ## Who takes the line -/

/-- Another statement takes the line, and fails with a fault. -/
inductive Captured : (name before value : List Char) → SyntaxFault → Prop
  /-- A blank before the equals sign, and none from there up to the end of the line. -/
  | digits {b : Char} {before word ending : List Char} :
    (∀ c ∈ word, Text.isBlank c = false) → atEnd ending = true →
    Captured "digits".toList (b :: before) (word ++ ending)
      (.digitsNotNumber (String.ofList ('=' :: word)))
  | table {more before value : List Char} :
    Captured ("ttable".toList ++ more) before value .tableShape

section Capture

variable {name before value : List Char} (hname : DeclaredName name)
  (hbefore : ∀ b ∈ before, Text.isBlank b = true)

include hname hbefore

theorem digitsParts?_declared {word : List Char}
    (h : digitsParts? (name ++ (before ++ '=' :: value)) = some word) :
    name = "digits".toList ∧ ∃ fault, Captured name before value fault := by
  obtain ⟨cs, hcs, hbehind⟩ := Option.bind_eq_some_iff.mp h
  obtain ⟨rest, hrest, hcut⟩ := Option.bind_eq_some_iff.mp hbehind
  obtain ⟨rfl, hspaced, rfl⟩ := afterBlanks?_declared hname hbefore (by decide) hcs hrest
  obtain ⟨b, bs, rfl⟩ := List.exists_cons_of_ne_nil hspaced
  have htake : ('=' :: value).takeWhile (fun c ↦ !Text.isBlank c) =
      '=' :: value.takeWhile (fun c ↦ !Text.isBlank c) :=
    List.takeWhile_cons_of_pos (by decide)
  dsimp only at hcut
  rw [htake, List.length_cons, List.drop_succ_cons] at hcut
  split at hcut
  · next hend =>
    rw [Bool.and_eq_true] at hend
    have hword : ∀ c ∈ value.takeWhile (fun c ↦ !Text.isBlank c), Text.isBlank c = false :=
      fun c hc ↦ by simpa using Text.mem_takeWhile c hc
    have hcaptured := @Captured.digits b bs _ _ hword hend.2
    rw [Text.takeWhile_append_drop] at hcaptured
    exact ⟨rfl, _, hcaptured⟩
  · cases hcut

omit hname in
/-- `digits` takes the equals sign and what is joined to it for the number. -/
theorem digitsParts?_captured {word ending : List Char} (hspaced : before ≠ [])
    (hword : ∀ c ∈ word, Text.isBlank c = false) (hending : atEnd ending = true) :
    digitsParts? ("digits".toList ++ (before ++ '=' :: (word ++ ending))) =
      some ('=' :: word) := by
  obtain ⟨b, bs, rfl⟩ := List.exists_cons_of_ne_nil hspaced
  have hafter : after? "digits" ("digits".toList ++ (b :: bs ++ '=' :: (word ++ ending))) =
      some (b :: bs ++ '=' :: (word ++ ending)) := by
    rw [after?, if_pos (List.isPrefixOf_iff_prefix.mpr (List.prefix_append _ _)),
      ← String.length_toList, List.drop_left]
  have hblanks : afterBlanks? (b :: bs ++ '=' :: (word ++ ending)) =
      some ('=' :: (word ++ ending)) := by
    rw [List.cons_append, afterBlanks?, if_pos (hbefore b List.mem_cons_self), ← List.cons_append,
      trimStart_equals hbefore]
  have hhead : ∀ c ∈ ending.head?, (!Text.isBlank c) = false := by
    rcases atEnd_cases hending with rfl | rfl
    · nofun
    · rintro c ⟨⟩
      decide
  have hclass : ∀ c ∈ '=' :: word, (!Text.isBlank c) = true := by
    intro c hc
    rcases List.mem_cons.mp hc with rfl | hc
    · decide
    · simp [hword c hc]
  have htake : ('=' :: (word ++ ending)).takeWhile (fun c ↦ !Text.isBlank c) = '=' :: word :=
    Text.takeWhile_run hclass hhead
  rw [digitsParts?, hafter, Option.bind_eq_bind, Option.bind_some, hblanks, Option.bind_some]
  dsimp only
  rw [htake, ← List.cons_append, List.drop_left, hending]
  rfl

end Capture

/-! ## Reading the line -/

variable {α : Type} [Scalar α]

/-- A line with an equals sign is none of the fixed words. -/
theorem ofLine_equals {line : String} (h : '=' ∈ line.toList) :
    (ofLine line : Result (Statement α)) =
      match digitsParts? line.toList with
      | some word => digitsOf word >>= fun n ↦ .ok (.digits n)
      | none =>
        match aliasParts? line.toList with
        | some (name, text) =>
          .ok (rename (String.ofList name) (String.ofList (Text.trimChars text)))
        | none =>
          if Text.startsWith line "ttable" then tableOf line.toList
          else valueOf line line.toList := by
  have hgap : line ≠ "---" := by
    rintro rfl
    exact absurd h (by decide)
  have hscientific : line ≠ "scientific" := by
    rintro rfl
    exact absurd h (by decide)
  rw [ofLine]
  simp only [if_neg hgap, if_neg hscientific]
  rfl

theorem startsWith_ofList {cs : List Char} {word : String} :
    Text.startsWith (String.ofList cs) word = true ↔ word.toList <+: cs := by
  rw [Text.startsWith, List.isPrefixOf_iff_prefix, String.toList_ofList]

theorem equals_mem_declaration (name before value : List Char) :
    '=' ∈ (declaration name before value).toList := by
  simp [declaration]

section Declaration

variable {name before value : List Char} (hname : DeclaredName name)
  (hbefore : ∀ b ∈ before, Text.isBlank b = true)

include hname hbefore

/-- Who takes the line fails on it. -/
theorem ofLine_captured {fault : SyntaxFault} (h : Captured name before value fault) :
    (ofLine (declaration name before value) : Result (Statement α)) = fail (.syntaxOf fault) := by
  rw [ofLine_equals (equals_mem_declaration name before value), declaration, String.toList_ofList]
  cases h with
  | @digits b before word ending hword hending =>
    have hdigit : ('=' :: word).all Text.isDigit = false := by
      rw [List.all_cons, show Text.isDigit '=' = false by decide, Bool.false_and]
    rw [digitsParts?_captured hbefore (by simp) hword hending]
    dsimp only
    rw [digitsOf, hdigit]
    rfl
  | @table more =>
    have hdigits : digitsParts? ("ttable".toList ++ more ++ (before ++ '=' :: value)) = none := by
      rw [Option.eq_none_iff_forall_ne_some]
      intro word hword
      obtain ⟨hdigits, -⟩ := digitsParts?_declared hname hbefore hword
      exact absurd (congrArg List.head? hdigits) (by simp)
    have hstart := startsWith_ofList.mpr
      (List.prefix_append "ttable".toList (more ++ (before ++ '=' :: value)))
    rw [← List.append_assoc] at hstart
    rw [hdigits, aliasParts?_declared hname hbefore]
    simp only [if_pos hstart, tableOf, tableParts?_declared hname hbefore]

/-- Nobody else takes the line: it declares the name. -/
theorem ofLine_declared {e : Expr α} (hvalue : '=' ∉ value) {c : Char} {cs : List Char}
    (htrim : Text.trimStart value = c :: cs) (hread : exprOf (c :: cs) = .ok e)
    (h : ∀ fault, ¬ Captured name before value fault) :
    ofLine (declaration name before value) = .ok (.declare (String.ofList name) e) := by
  have hdigits : digitsParts? (name ++ (before ++ '=' :: value)) = none := by
    rw [Option.eq_none_iff_forall_ne_some]
    intro word hword
    obtain ⟨-, fault, hcaptured⟩ := digitsParts?_declared hname hbefore hword
    exact h fault hcaptured
  have hstart : ¬ Text.startsWith
      (String.ofList (name ++ (before ++ '=' :: value))) "ttable" = true := by
    intro hstart
    have hafter : after? "ttable" (name ++ (before ++ '=' :: value)) = some _ :=
      if_pos (List.isPrefixOf_iff_prefix.mpr (startsWith_ofList.mp hstart))
    obtain ⟨more, rfl, -⟩ := after?_declared hbefore (by decide) hafter
    exact h _ .table
  have hquestion : ∀ d ∈ (Text.trimStart value).head?, d ≠ '?' := by
    rw [htrim]
    rintro d hd rfl
    obtain rfl : c = '?' := by simpa using hd
    exact Document.next?_ne_none (by decide) hread (by
      simp [Token.next?, Token.startsNumber, Token.startsName, Token.symbols,
        show Text.isDigit '?' = false by decide, show Text.isLetter '?' = false by decide])
  rw [ofLine_equals (equals_mem_declaration name before value), declaration, String.toList_ofList,
    hdigits, aliasParts?_declared hname hbefore]
  simp only [if_neg hstart]
  rw [valueOf, declarePrintParts?_declared hname hbefore hvalue]
  dsimp only
  rw [printParts?_declared hname hbefore hquestion]
  dsimp only
  rw [declareParts?_declared hname hbefore hvalue htrim]
  dsimp only
  rw [hread]
  rfl

/-- **A name, blanks, an equals sign, blanks and an expression** declare the name as the
expression, unless `digits` or `ttable` takes the line; then reading fails. -/
theorem ofLine_declaration {after text : List Char} {e : Expr α}
    (hafter : ∀ b ∈ after, Text.isBlank b = true) (htext : '=' ∉ text)
    (hread : Expr.ofText Registry.standard (String.ofList text) = .ok e) :
    (∀ fault, Captured name before (after ++ text) fault →
      (ofLine (declaration name before (after ++ text)) : Result (Statement α)) =
        fail (.syntaxOf fault)) ∧
    ((∀ fault, ¬ Captured name before (after ++ text) fault) →
      ofLine (declaration name before (after ++ text)) =
        .ok (.declare (String.ofList name) e)) := by
  have hvalue : '=' ∉ after ++ text := by
    rw [List.mem_append]
    rintro (hmem | hmem)
    · exact absurd (hafter _ hmem) (by decide)
    · exact htext hmem
  obtain ⟨c, cs, htrim, hread⟩ := Expr.exists_cons_of_ofText hread
  rw [← Text.trimStart_blanks_append hafter] at htrim
  exact ⟨fun _ ↦ ofLine_captured hname hbefore, ofLine_declared hname hbefore hvalue htrim hread⟩

end Declaration

/-- `digits = 2 m` declares `digits`, but no spacing declares `ttable_1`. -/
theorem ofLine_declaration_two_metres : ∃ e : Expr Float,
    Expr.ofText Registry.standard "2 m" = .ok e ∧
      ofLine "digits = 2 m" = .ok (.declare "digits" e) ∧
      (ofLine "ttable_1=2 m" : Result (Statement Float)) = fail (.syntaxOf .tableShape) := by
  obtain ⟨e, he⟩ := exists_eq_ok
    (show (Expr.ofText Registry.standard "2 m" : Result (Expr Float)).isOk = true by decide +kernel)
  have hread : Expr.ofText Registry.standard (String.ofList "2 m".toList) = .ok e := by
    rw [String.ofList_toList]
    exact he
  have hdigits : DeclaredName "digits".toList := .of_all (by decide) (by decide)
  have htable : DeclaredName "ttable_1".toList := .of_all (by decide) (by decide)
  have hblank : ∀ b ∈ [' '], Text.isBlank b = true := List.forall_mem_singleton.mpr (by decide)
  have hnone : ∀ b ∈ ([] : List Char), Text.isBlank b = true := nofun
  have hfree : ∀ fault, ¬ Captured "digits".toList [' '] ([' '] ++ "2 m".toList) fault := by
    intro fault h
    generalize hvalue : [' '] ++ "2 m".toList = value at h
    cases h with
    | @digits b before word ending hword hending =>
      cases word with
      | nil => rcases atEnd_cases hending with rfl | rfl <;> exact absurd hvalue (by decide)
      | cons c word =>
        obtain rfl : ' ' = c := List.head_eq_of_cons_eq hvalue
        exact absurd (hword ' ' List.mem_cons_self) (by decide)
  have hcaptured : Captured "ttable_1".toList [] ([] ++ "2 m".toList) .tableShape :=
    @Captured.table "_1".toList _ _
  have hdeclared := (ofLine_declaration hdigits hblank hblank (by decide) hread).2 hfree
  have hrefused := (ofLine_declaration htable hnone hnone (by decide) hread).1 _ hcaptured
  rw [show declaration "digits".toList [' '] ([' '] ++ "2 m".toList) = "digits = 2 m" by decide,
    String.ofList_toList] at hdeclared
  rw [show declaration "ttable_1".toList [] ([] ++ "2 m".toList) = "ttable_1=2 m" by decide]
    at hrefused
  exact ⟨e, he, hdeclared, hrefused⟩

/-- **Spacing decides about `digits`**: `digits =5` declares nothing. -/
theorem not_every_declaration_read : ¬ ∀ (name before after text : List Char) (e : Expr Float),
    DeclaredName name → (∀ b ∈ before, Text.isBlank b = true) →
    (∀ b ∈ after, Text.isBlank b = true) → '=' ∉ text →
    Expr.ofText Registry.standard (String.ofList text) = .ok e →
    ofLine (declaration name before (after ++ text)) =
      .ok (.declare (String.ofList name) e) := by
  intro h
  obtain ⟨e, he⟩ := exists_eq_ok
    (show (Expr.ofText Registry.standard "5" : Result (Expr Float)).isOk = true by decide +kernel)
  have hname : DeclaredName "digits".toList := .of_all (by decide) (by decide)
  have hblank : ∀ b ∈ [' '], Text.isBlank b = true := List.forall_mem_singleton.mpr (by decide)
  have hcaptured : Captured "digits".toList [' '] (['5'] ++ []) _ :=
    .digits (List.forall_mem_singleton.mpr (by decide)) rfl
  have hdeclared := h "digits".toList [' '] [] ['5'] e hname hblank nofun (by decide) he
  exact absurd ((ofLine_captured hname hblank hcaptured).symm.trans hdeclared) fail_ne_ok

end Statement
end Mensura
