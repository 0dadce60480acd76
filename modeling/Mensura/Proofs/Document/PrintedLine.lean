import Mensura.Proofs.Document.FirstFailure
import Mensura.Proofs.Expr.Blank
import Mensura.Proofs.Text.Blank
import Mensura.Proofs.Text.Lines

/-!
# A value to print on a line of its own

The line of a value to print is an expression, an equals sign and a question mark.  Taking it apart
gives the expression back: the blanks around it belong to the line (`Expr.ofText_blanks`), and an
equals sign inside it would end up in a hint, which holds none (`hintOf_ne_ok`).

So a text that is a value to print with ` = ?` behind it is read as that expression by itself
(`ofText_of_print`), and a source of this one line as this one statement (`reads_printedLine`).
-/

set_option autoImplicit false

namespace Mensura

variable {α : Type} [Scalar α]

namespace Statement

/-! ## Parts of the line -/

theorem atEquals?_eq_some {cs left rest : List Char} (h : atEquals? cs = some (left, rest)) :
    cs = left ++ '=' :: rest ∧ '=' ∉ left := by
  have hleft : '=' ∉ cs.takeWhile (· ≠ '=') :=
    fun hmem ↦ by simpa using Text.mem_takeWhile _ hmem
  have hsplit := Text.takeWhile_append_drop (· ≠ '=') cs
  have hhead : ∀ c ∈ (cs.drop (cs.takeWhile (· ≠ '=')).length).head?, decide (c ≠ '=') = false :=
    Text.head_drop_takeWhile
  simp only [atEquals?] at h
  cases hrest : cs.drop (cs.takeWhile (· ≠ '=')).length with
  | nil =>
    rw [hrest] at h
    cases h
  | cons d ds =>
    rw [hrest] at h hhead hsplit
    obtain ⟨rfl, rfl⟩ := Prod.mk.inj (Option.some.inj h)
    obtain rfl : d = '=' := by simpa using hhead
    exact ⟨hsplit.symm, hleft⟩

theorem atEnd_cases {cs : List Char} (h : atEnd cs = true) : cs = [] ∨ cs = ['\n'] := by
  simpa [atEnd] using h

theorem mem_toEnd {cs line : List Char} (h : toEnd? cs = some line) (hmem : '=' ∈ cs) :
    '=' ∈ line := by
  rw [toEnd?] at h
  split at h
  · next hend =>
    obtain rfl := Option.some.inj h
    rw [← Text.takeWhile_append_drop (· ≠ '\n') cs] at hmem
    refine (List.mem_append.mp hmem).resolve_right fun hbehind ↦ ?_
    -- Behind the line there is a line feed at most.
    rcases atEnd_cases hend with hnil | hfeed
    · rw [hnil] at hbehind
      cases hbehind
    · rw [hfeed] at hbehind
      simp at hbehind
  · cases h

/-- An equals sign behind the question mark belongs to the hint. -/
theorem mem_hintPart {cs part : List Char} (h : hintPart? cs = some part) (hmem : '=' ∈ cs) :
    '=' ∈ part := by
  have hblank : Text.isBlank '=' = false := by decide
  rw [hintPart?] at h
  obtain ⟨rest, hrest, h⟩ := Option.bind_eq_some_iff.mp h
  refine mem_toEnd h (Text.mem_trimStart hblank ?_)
  have htrim := Text.mem_trimStart hblank hmem
  rw [afterSymbol?] at hrest
  split at hrest
  · next c cs' hcs =>
    obtain ⟨rfl, rfl⟩ : c = '?' ∧ cs' = rest := by simpa using hrest
    simpa [hcs] using htrim
  · cases hrest

/-- A hint holds no equals sign. -/
theorem hintOf_ne_ok {cs : List Char} (h : '=' ∈ cs) (hint : Option (UnitHint α)) :
    hintOf cs ≠ .ok hint := by
  have htrim := Text.mem_trimChars (by decide) h
  have hdisallowed : (Text.trimChars cs).any UnitExpr.disallowed.contains = true :=
    List.any_eq_true.mpr ⟨'=', htrim, by decide⟩
  have hne : (Text.trimChars cs).isEmpty = false := by
    cases hcs : Text.trimChars cs with
    | nil => simp [hcs] at htrim
    | cons => rfl
  intro hok
  rw [hintOf] at hok
  simp only [hne, Bool.false_eq_true, if_false] at hok
  obtain ⟨hint, hhint, -⟩ := bind_eq_ok.mp hok
  rw [UnitHint.ofText, UnitExpr.ofText, String.toList_ofList, if_pos hdisallowed] at hhint
  obtain ⟨u, hu, -⟩ := bind_eq_ok.mp hhint
  exact absurd hu fail_ne_ok

/-- The line of a value to print, taken apart: the value is what stands before the equals sign, or
there is another equals sign in the hint. -/
theorem printParts?_line {c : Char} {cs value part : List Char} (hc : Text.isBlank c = false)
    (h : printParts? (c :: cs ++ [' ', '=', ' ', '?']) = some (value, part)) :
    value = Text.trimEnd (c :: cs) ∧ part = [] ∨ '=' ∈ part := by
  rw [printParts?] at h
  obtain ⟨⟨left, rest⟩, hparts, h⟩ := Option.bind_eq_some_iff.mp h
  obtain ⟨hline, hleft⟩ := atEquals?_eq_some hparts
  dsimp only at h
  split at h
  · cases h
  obtain ⟨hint, hhint, h⟩ := Option.bind_eq_some_iff.mp h
  obtain ⟨hvalue, rfl⟩ := Prod.mk.inj (Option.some.inj h)
  rcases List.append_eq_append_iff.mp hline with ⟨more, rfl, hmore⟩ | ⟨more, -, hmore⟩
  · -- The equals sign is the one of the line.
    left
    have hnot : '=' ∉ more := fun hm ↦ hleft (List.mem_append_right _ hm)
    obtain ⟨rfl, rfl⟩ : more = [' '] ∧ rest = [' ', '?'] := by
      rcases more with - | ⟨a, - | ⟨b, more⟩⟩
      · simp at hmore
      · simpa [eq_comm] using hmore
      · simp only [List.cons_append, List.cons.injEq] at hmore
        exact absurd (hmore.2.1 ▸ by simp) hnot
    obtain ⟨ds, hds⟩ := Text.exists_trimEnd_cons hc cs
    have htrim : Text.trimEnd (c :: cs ++ [' ']) = Text.trimEnd (c :: cs) :=
      Text.trimEnd_concat_blank (by decide)
    rw [htrim, hds] at hvalue
    refine ⟨by rw [hds, ← hvalue]; rfl, ?_⟩
    exact (Option.some.inj hhint).symm
  · -- It is one of the expression, so that of the line stands behind it.
    right
    refine mem_hintPart hhint ?_
    cases more with
    | nil => simp at hmore
    | cons d more =>
      obtain ⟨rfl, rfl⟩ := List.cons.inj hmore
      simp

/-! ## Reading the line -/

theorem ofLine_eq_print {cs : List Char} {e : Expr α} {hint : Option (UnitHint α)}
    (h : ofLine (String.ofList cs) = .ok (.print e hint)) : ∃ value part,
      printParts? cs = some (value, part) ∧ exprOf value = .ok e ∧ hintOf part = .ok hint := by
  rw [ofLine, String.toList_ofList] at h
  split at h
  · cases h
  split at h
  · cases h
  split at h
  · obtain ⟨n, -, h⟩ := bind_eq_ok.mp h
    cases h
  split at h
  · cases h
  split at h
  · rw [tableOf] at h
    split at h
    · cases h
    · obtain ⟨formulas, -, h⟩ := bind_eq_ok.mp h
      split at h <;> cases h
  rw [valueOf] at h
  split at h
  · obtain ⟨e', -, h⟩ := bind_eq_ok.mp h
    obtain ⟨hint', -, h⟩ := bind_eq_ok.mp h
    cases h
  split at h
  · next value part hparts =>
    obtain ⟨e', he, h⟩ := bind_eq_ok.mp h
    obtain ⟨hint', hhint, h⟩ := bind_eq_ok.mp h
    cases h
    exact ⟨value, part, hparts, he, hhint⟩
  split at h
  · obtain ⟨e', -, h⟩ := bind_eq_ok.mp h
    cases h
  · cases h

end Statement

namespace Document

/-- What can be read as an expression begins with a token. -/
theorem next?_ne_none {r : Registry α} {c : Char} {cs : List Char} {e : Expr α}
    (hc : Text.isBlank c = false) (h : Expr.ofText r (String.ofList (c :: cs)) = .ok e) :
    Token.next? (c :: cs) ≠ none := by
  intro hnone
  obtain ⟨ts, hts, -⟩ := Expr.ofText_eq_ok.mp h
  rw [Token.ofText, String.toList_ofList, Token.scan, if_neg (by simp [hc]), hnone] at hts
  cases hts

/-- No expression begins like a comment or like raw LaTeX. -/
theorem not_starts_item {r : Registry α} {c : Char} {cs : List Char} {e : Expr α}
    (hc : Text.isBlank c = false) (h : Expr.ofText r (String.ofList (c :: cs)) = .ok e) :
    c ≠ '#' ∧ c ≠ '\'' := by
  have hnext := next?_ne_none hc h
  have hnone {d : Char} (hdigit : Text.isDigit d = false) (hletter : Text.isLetter d = false)
      (hother : d ≠ '.' ∧ d ≠ '_' ∧ d ≠ '\\' ∧ d ≠ '*' ∧ d ∉ Token.symbols) :
      Token.next? (d :: cs) = none := by
    simp [Token.next?, Token.startsNumber, Token.startsName, hdigit, hletter, hother]
  constructor
  · rintro rfl
    exact hnext (hnone (by decide) (by decide) (by decide))
  · rintro rfl
    exact hnext (hnone (by decide) (by decide) (by decide))

variable {E : String} {e : Expr α} {hint : Option (UnitHint α)}

/-- The line is trimmed where the expression begins. -/
theorem trimChars_line (E : String) : Text.trimChars (E ++ " = ?").toList =
    match Text.trimStart E.toList with
    | [] => ['=', ' ', '?']
    | c :: cs => c :: cs ++ [' ', '=', ' ', '?'] := by
  obtain ⟨before, hbefore, hE⟩ := Text.exists_trimStart_append E.toList
  have hline : (E ++ " = ?").toList =
      before ++ (Text.trimStart E.toList ++ [' ', '=', ' ', '?']) := by
    rw [String.toList_append, ← List.append_assoc, ← hE]
    rfl
  rw [hline, Text.trimChars, Text.trimStart_blanks_append hbefore]
  cases hstart : Text.trimStart E.toList with
  | nil => rfl
  | cons c cs =>
    have hend : Text.trimEnd (c :: cs ++ [' ', '=', ' '] ++ ['?']) =
        c :: cs ++ [' ', '=', ' '] ++ ['?'] := Text.trimEnd_concat (by decide)
    rw [List.append_assoc] at hend
    rw [List.cons_append, Text.trimStart_cons (Text.not_isBlank_of_trimStart hstart)]
    exact hend

/-- **A value to print is read as by itself**, and its line is a statement without a hint. -/
theorem ofText_of_print (h : statementOf (E ++ " = ?") = .ok (.print e hint)) :
    hint = none ∧ Expr.ofText Registry.standard E = .ok e ∧
      saysNothing (E ++ " = ?") = false ∧ opened? (E ++ " = ?") = none := by
  obtain ⟨before, hbefore, hE⟩ := Text.exists_trimStart_append E.toList
  rw [statementOf, trimChars_line] at h
  rw [saysNothing, opened?, trimChars_line]
  cases hstart : Text.trimStart E.toList with
  | nil =>
    rw [hstart] at h
    obtain ⟨value, part, hparts, -⟩ := Statement.ofLine_eq_print h
    cases hparts
  | cons c cs =>
    rw [hstart] at h hE
    have hc := Text.not_isBlank_of_trimStart hstart
    obtain ⟨value, part, hparts, hvalue, hhint⟩ := Statement.ofLine_eq_print h
    obtain ⟨rfl, rfl⟩ := (Statement.printParts?_line hc hparts).resolve_right
      fun hequals ↦ Statement.hintOf_ne_ok hequals _ hhint
    obtain ⟨after, hafter, hcs⟩ := Text.exists_trimEnd_append (c :: cs)
    obtain ⟨ds, hds⟩ := Text.exists_trimEnd_cons hc cs
    rw [Statement.exprOf, hds] at hvalue
    have hread := Expr.ofText_blanks hbefore hc hafter hvalue
    rw [← hds, ← hcs, ← hE, String.ofList_toList] at hread
    obtain ⟨hcomment, hfence⟩ := not_starts_item hc hvalue
    refine ⟨(Except.ok.inj hhint).symm, hread, ?_, ?_⟩
    · simp [hcomment]
    · simp [fence, Ne.symm hfence]

/-- **A source of one line with a value to print.** -/
theorem reads_printedLine (h : statementOf (E ++ " = ?") = .ok (.print e hint))
    (hline : ∀ c ∈ E.toList, Text.isLineEnd c = false) :
    Reads 1 (Text.lines (E ++ " = ?")) [(1, .print e none)] := by
  obtain ⟨rfl, -, hsays, hopened⟩ := ofText_of_print h
  have hends : ∀ c ∈ (E ++ " = ?").toList, Text.isLineEnd c = false := by
    intro c hc
    rw [String.toList_append] at hc
    rcases List.mem_append.mp hc with hc | hc
    · exact hline c hc
    · have hall : " = ?".toList.all (!Text.isLineEnd ·) = true := by decide +kernel
      simpa using List.all_eq_true.mp hall c hc
  rw [Text.lines_of_line (by simp [String.toList_append]) hends]
  exact .item (.statement hsays hopened h) .nil

/-- Such a source is rendered exactly if its statement is evaluated. -/
theorem render_printedLine (h : statementOf (E ++ " = ?") = .ok (.print e hint))
    (hline : ∀ c ∈ E.toList, Text.isLineEnd c = false) (digits : Nat) (scientific : Bool)
    (d : Rendered) : render α digits scientific (E ++ " = ?") = .ok d ↔ ∃ q shown result,
      (State.initial digits scientific).evaluated e none = .ok (q, shown, result) ∧
        d = ⟨header ++ State.formulaLine [shown, result] ++ footer, 1⟩ := by
  rw [render, ofText, ofLines_eq_ok.mpr (reads_printedLine h hline), ok_bind, run_cons,
    State.execute_print]
  cases (State.initial digits scientific).evaluated e none with
  | error f => simp
  | ok v =>
    obtain ⟨q, shown, result⟩ := v
    change Except.ok (⟨header ++ State.formulaLine [shown, result] ++ footer, 1⟩ : Rendered) =
      .ok d ↔ _
    constructor
    · intro h
      exact ⟨q, shown, result, rfl, (Except.ok.inj h).symm⟩
    · rintro ⟨_, _, _, hv, rfl⟩
      obtain ⟨-, rfl, rfl⟩ : q = _ ∧ shown = _ ∧ result = _ := by simpa using hv
      rfl

end Document
end Mensura
