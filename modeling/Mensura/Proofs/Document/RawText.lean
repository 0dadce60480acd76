import Mensura.Proofs.Document.FirstFailure
import Mensura.Proofs.Text.Blank
import Mensura.Proofs.Text.Lines

/-!
# Raw LaTeX between fences

A source that is one text between two fences is one statement, in its first line, and its document
is that text on lines of its own.  The text may have any number of lines; it must not close the raw
LaTeX itself (`Fenceable`), neither by a fence inside nor by a quote right before the last one.

Nearly all of the text is kept.  The line that opens raw LaTeX is trimmed as any other line is, the
lines behind it are not; so of a text of several lines the first loses the blanks at its end
(`kept`).  `render_fenced` says both: what the document is, and that nothing is lost exactly if the
first of several lines ends with no blank.
-/

set_option autoImplicit false

namespace Mensura
namespace Document

variable {cs : List Char}

/-! ## Where the fence is -/

/-- Only a text with a fence in it is divided at one. -/
theorem atFence?_eq_none (h : ¬fence <:+: cs) : atFence? cs = none := by
  induction cs with
  | nil => rfl
  | cons c cs ih =>
    rw [List.infix_cons_iff, not_or] at h
    rw [atFence?, if_neg (by rw [List.isPrefixOf_iff_prefix]; exact h.1), ih h.2]
    rfl

/-- The fence behind a text is the first one, if none is in the text and no quote at its end. -/
theorem atFence?_append (hfree : ¬fence <:+: cs) (hend : cs.getLast? ≠ some '\'') :
    atFence? (cs ++ fence) = some (cs, []) := by
  induction cs with
  | nil => rfl
  | cons c cs ih =>
    rw [List.infix_cons_iff, not_or] at hfree
    have hopen : ¬fence <+: c :: (cs ++ fence) := by
      intro hprefix
      -- a fence that begins here has its three quotes in the text, or the last character of it is
      -- one of them
      match cs, hfree, hend, hprefix with
      | [], _, hend, hprefix =>
        obtain ⟨rfl, -⟩ := List.cons_prefix_cons.mp hprefix
        exact hend rfl
      | [d], _, hend, hprefix =>
        obtain ⟨rfl, -⟩ := List.cons_prefix_cons.mp (List.cons_prefix_cons.mp hprefix).2
        exact hend rfl
      | d :: e :: cs, hfree, _, hprefix =>
        refine hfree.1 ?_
        simpa [fence, List.cons_prefix_cons] using hprefix
    have hend' : cs.getLast? ≠ some '\'' := by
      cases cs with
      | nil => simp
      | cons d cs => rwa [List.getLast?_cons_cons] at hend
    rw [List.cons_append, atFence?, if_neg (by rwa [List.isPrefixOf_iff_prefix]),
      ih hfree.2 hend']
    rfl

/-! ## Texts to put between fences -/

/-- A text that does not close raw LaTeX itself, with line feeds between its lines. -/
structure Fenceable (cs : List Char) : Prop where
  lineFeeds : ∀ c ∈ cs, Text.isLineEnd c = true → c = '\n'
  free : ¬fence <:+: cs
  last_ne : cs.getLast? ≠ some '\''

/-- The condition on the ends of lines, checked one character after the other. -/
theorem Fenceable.of_all (h : (cs.all fun c ↦ !Text.isLineEnd c || c == '\n') = true)
    (free : ¬fence <:+: cs) (last_ne : cs.getLast? ≠ some '\'') : Fenceable cs := by
  refine ⟨fun c hc hend ↦ ?_, free, last_ne⟩
  simpa [hend] using List.all_eq_true.mp h c hc

/-- Such a text is one line, or a line and another such text behind it. -/
theorem Fenceable.line_or_lines (h : Fenceable cs) : (∀ c ∈ cs, Text.isLineEnd c = false) ∨
    ∃ line rest, cs = line ++ '\n' :: rest ∧ (∀ c ∈ line, Text.isLineEnd c = false) ∧
      ¬fence <:+: line ∧ Fenceable rest := by
  have hends {c : Char} (hc : c ∈ cs) (hne : c ≠ '\n') : Text.isLineEnd c = false :=
    Bool.eq_false_iff.mpr fun hend ↦ hne (h.lineFeeds c hc hend)
  by_cases hfeed : '\n' ∈ cs
  · obtain ⟨line, rest, rfl, hline⟩ := List.eq_append_cons_of_mem hfeed
    refine .inr ⟨line, rest, rfl, fun c hc ↦ ?_, fun hin ↦ ?_, ⟨fun c hc ↦ ?_, fun hin ↦ ?_, ?_⟩⟩
    · exact hends (List.mem_append_left _ hc) fun heq ↦ hline (heq ▸ hc)
    · exact h.free (hin.trans (List.prefix_append _ _).isInfix)
    · exact h.lineFeeds c (List.mem_append_right _ (List.mem_cons_of_mem _ hc))
    · refine h.free (hin.trans ⟨line ++ ['\n'], [], ?_⟩)
      simp
    · intro hquote
      refine h.last_ne ?_
      rw [List.getLast?_append, List.getLast?_cons, hquote]
      rfl
  · exact .inl fun c hc ↦ hends hc fun heq ↦ hfeed (heq ▸ hc)

theorem not_isLineEnd_of_mem_fence {c : Char} (hc : c ∈ fence) : Text.isLineEnd c = false := by
  obtain rfl : c = '\'' := by simpa [fence] using hc
  decide

theorem splitLines_fence (h : ∀ c ∈ cs, Text.isLineEnd c = false) :
    Text.splitLines [] false false (cs ++ fence) = [cs ++ fence] := by
  refine Text.splitLines_of_line (by simp [fence]) (List.forall_mem_append.mpr ⟨h, fun c hc ↦ ?_⟩)
  exact not_isLineEnd_of_mem_fence hc

/-- The lines of such a text and the fence behind it close raw LaTeX, which is the text. -/
theorem Fenceable.closes (h : Fenceable cs) : ∃ inner before,
    Closes (Text.splitLines [] false false (cs ++ fence)) inner before [] ∧
      ['\n'].intercalate (inner ++ [before]) = cs := by
  induction hlength : cs.length using Nat.strongRecOn generalizing cs with
  | ind length ih =>
    rcases h.line_or_lines with hline | ⟨line, rest, rfl, hline, hfree, hrest⟩
    · rw [splitLines_fence hline]
      exact ⟨[], cs, .last (atFence?_append h.free h.last_ne), by simp⟩
    · have hshorter : rest.length < length := by
        rw [← hlength, List.length_append, List.length_cons]
        omega
      obtain ⟨inner, before, hcloses, htext⟩ := ih _ hshorter hrest rfl
      refine ⟨line :: inner, before, ?_, ?_⟩
      · rw [List.append_assoc, List.cons_append, Text.splitLines_line hline]
        exact .more (atFence?_eq_none hfree) hcloses
      · rw [List.cons_append, List.intercalate_cons_of_ne_nil (by simp), htext]
        simp

/-! ## What is kept -/

/-- The first line of a text. -/
def firstLine (t : String) : List Char :=
  t.toList.takeWhile (· ≠ '\n')

/-- The first of several lines of a text ends with a blank. -/
def FirstEndsBlank (t : String) : Prop :=
  '\n' ∈ t.toList ∧ ∃ c, (firstLine t).getLast? = some c ∧ Text.isBlank c = true

/-- What is kept of a text between fences: the first of several lines loses the blanks at its
end. -/
def kept (t : String) : String :=
  if '\n' ∈ t.toList then
    String.ofList (Text.trimEnd (firstLine t) ++ t.toList.dropWhile (· ≠ '\n'))
  else t

/-- Nothing is lost exactly if the first of several lines ends with no blank. -/
theorem kept_eq_self_iff {t : String} : kept t = t ↔ ¬FirstEndsBlank t := by
  rw [kept, FirstEndsBlank]
  split
  · next hfeed =>
    rw [and_iff_right hfeed, ← Text.trimEnd_eq_self_iff, ← String.toList_inj, String.toList_ofList]
    have hparts : firstLine t ++ t.toList.dropWhile (· ≠ '\n') = t.toList :=
      List.takeWhile_append_dropWhile
    conv => lhs; rhs; rw [← hparts]
    exact List.append_left_inj _
  · next hnone => exact iff_of_true rfl fun h ↦ hnone h.1

/-- What is kept of several lines. -/
theorem toList_kept {t : String} {line rest : List Char} (ht : t.toList = line ++ '\n' :: rest)
    (hline : ∀ c ∈ line, Text.isLineEnd c = false) :
    (kept t).toList = Text.trimEnd line ++ '\n' :: rest := by
  have hne : ∀ c ∈ line, decide (c ≠ '\n') = true := by
    intro c hc
    rw [decide_eq_true_eq]
    rintro rfl
    exact absurd (hline _ hc) (by decide)
  rw [kept, if_pos (by simp [ht]), String.toList_ofList, firstLine, ht,
    List.takeWhile_append_of_pos hne, List.dropWhile_append_of_pos hne,
    List.takeWhile_cons_of_neg (by simp), List.dropWhile_cons_of_neg (by simp), List.append_nil]

/-! ## The source and its document -/

/-- What a line holds that opens raw LaTeX. -/
theorem opened?_fence (cs : List Char) :
    opened? (String.ofList (fence ++ cs)) = some (Text.trimEnd cs) := by
  have hquote : Text.isBlank '\'' = false := by decide
  have htrim : Text.trimChars (fence ++ cs) = fence ++ Text.trimEnd cs := by
    simp only [fence, List.cons_append, List.nil_append, Text.trimChars,
      Text.trimStart_cons hquote, Text.trimEnd_cons hquote]
  rw [opened?, String.toList_ofList, htrim, if_pos (by simp), List.drop_left]

theorem trimEnd_fence (cs : List Char) : Text.trimEnd (cs ++ fence) = cs ++ fence := by
  rw [show cs ++ fence = cs ++ ['\'', '\''] ++ ['\''] by simp [fence],
    Text.trimEnd_concat (by decide)]

section Source

variable {α : Type} [Scalar α] {t : String}

/-- The text between the fences. -/
def fenced (t : String) : String :=
  "\'\'\'" ++ t ++ "\'\'\'"

theorem toList_fenced (t : String) : (fenced t).toList = fence ++ (t.toList ++ fence) := by
  simp [fenced, String.toList_append, fence]

/-- A line that opens raw LaTeX and lines that close it are one item. -/
theorem item_of_closes {line before : List Char} {lines inner : List (List Char)}
    (h : Closes (Text.trimEnd line :: lines) inner before []) :
    Item (α := α) 1 (((fence ++ line) :: lines).map String.ofList)
      (some (1, .raw (String.ofList (['\n'].intercalate (inner ++ [before]))))) := by
  have htexts : (lines.map String.ofList).map String.toList = lines := by simp
  have htext : String.ofList (['\n'].intercalate (inner ++ [before])) =
      "\n".intercalate ((inner ++ [before]).map String.ofList) := by
    rw [← String.toList_inj, String.toList_intercalate, String.toList_ofList]
    simp
  rw [htext]
  exact .raw (opened?_fence line) (by rwa [htexts]) (by decide)

/-- The lines of such a source are one item. -/
theorem item_fenced (ht : Fenceable t.toList) :
    Item (α := α) 1 (Text.lines (fenced t)) (some (1, .raw (kept t))) := by
  have hquotes : ∀ c ∈ fence, Text.isLineEnd c = false := fun c ↦ not_isLineEnd_of_mem_fence
  rw [Text.lines, toList_fenced]
  rcases ht.line_or_lines with hline | ⟨line, rest, hparts, hline, hfree, hrest⟩
  · rw [← List.append_assoc, splitLines_fence (List.forall_mem_append.mpr ⟨hquotes, hline⟩),
      List.append_assoc]
    have hcloses : Closes [Text.trimEnd (t.toList ++ fence)] [] t.toList [] := by
      rw [trimEnd_fence]
      exact .last (atFence?_append ht.free ht.last_ne)
    have hkept : kept t = t := if_neg fun hfeed ↦ absurd (hline _ hfeed) (by decide)
    simpa [hkept] using item_of_closes (α := α) hcloses
  · obtain ⟨inner, before, hcloses, htext⟩ := hrest.closes
    rw [hparts, List.append_assoc, List.cons_append, ← List.append_assoc,
      Text.splitLines_line (List.forall_mem_append.mpr ⟨hquotes, hline⟩)]
    have hopen : atFence? (Text.trimEnd line) = none := by
      obtain ⟨blanks, -, hblanks⟩ := Text.exists_trimEnd_append line
      refine atFence?_eq_none fun hin ↦ hfree (hin.trans ?_)
      exact ⟨[], blanks, by rw [List.nil_append, ← hblanks]⟩
    have hkept : kept t = String.ofList (['\n'].intercalate
        (Text.trimEnd line :: inner ++ [before])) := by
      rw [← String.toList_inj, toList_kept hparts hline, String.toList_ofList, List.cons_append,
        List.intercalate_cons_of_ne_nil (by simp), htext]
      simp
    rw [hkept]
    exact item_of_closes (.more hopen hcloses)

/-- **Raw LaTeX is kept but for blanks at the end of its first line.**  A text between fences is one
statement, the document of which is what is kept of the text, on lines of its own.  All of it is
kept exactly if the first of several lines ends with no blank. -/
theorem render_fenced (ht : Fenceable t.toList) (digits : Nat) (scientific : Bool) :
    (ofText (fenced t) : Except DocumentFailure (Program α)) = .ok [(1, .raw (kept t))] ∧
      render α digits scientific (fenced t) = .ok ⟨header ++ (kept t ++ "\n") ++ footer, 1⟩ ∧
      (kept t = t ↔ ¬FirstEndsBlank t) := by
  have hreads : Reads (α := α) 1 (Text.lines (fenced t)) [(1, .raw (kept t))] := by
    simpa using Reads.item (item_fenced ht) .nil
  have hexecutes : Executes (State.initial digits scientific : State α) [(1, .raw (kept t))]
      ((State.initial digits scientific).write (kept t ++ "\n")) :=
    .cons rfl .nil
  exact ⟨ofLines_eq_ok.mpr hreads, render_of_executes hreads hexecutes, kept_eq_self_iff⟩

end Source

/-- Blanks stay inside a line, at the start of one, and at the end of all but the first. -/
theorem render_fenced_indented : Fenceable "a b\n  c \n".toList ∧
    (ofText (fenced "a b\n  c \n") : Except DocumentFailure (Program Float)) =
      .ok [(1, .raw "a b\n  c \n")] ∧
    render Float 3 false (fenced "a b\n  c \n") =
      .ok ⟨header ++ ("a b\n  c \n" ++ "\n") ++ footer, 1⟩ := by
  have ht : Fenceable "a b\n  c \n".toList :=
    .of_all (by decide +kernel) (by decide +kernel) (by decide +kernel)
  have hfirst : firstLine "a b\n  c \n" = ['a', ' ', 'b'] := by decide +kernel
  obtain ⟨hread, hrender, hkept⟩ := render_fenced (α := Float) ht 3 false
  rw [hkept.mpr (by simp [FirstEndsBlank, hfirst, show Text.isBlank 'b' = false by decide])]
    at hread hrender
  exact ⟨ht, hread, hrender⟩

/-- **A blank may be lost**, and with it a control space. -/
theorem not_every_text_kept : ¬∀ t : String, Fenceable t.toList →
    (ofText (fenced t) : Except DocumentFailure (Program Float)) = .ok [(1, .raw t)] := by
  intro h
  have hread : (ofText (fenced "a\\ \nb") : Except DocumentFailure (Program Float)) =
      .ok [(1, .raw "a\\\nb")] := rfl
  have hkept := h "a\\ \nb" (.of_all (by decide +kernel) (by decide +kernel) (by decide +kernel))
  rw [hread] at hkept
  simp at hkept

end Document
end Mensura
