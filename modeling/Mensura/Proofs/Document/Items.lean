import Mensura.Document.Source
import Mensura.Proofs.Outcome

/-!
# The items of a source

Reading walks over the lines of a source one by one.  This file says what it reads without walking:
a source is a sequence of items, each with the line where it starts.

* A blank line or a comment is an item that says nothing.
* Any other line that opens no raw LaTeX is a statement.
* Raw LaTeX reaches from the line that opens it to the first fence behind that.

`Item` are the items that can be read, `Failing` the lines at which no item can, with the line that
is at fault.  `ofLines_eq_ok` and `ofLines_eq_error` say that reading answers the statements of the
items, and where it fails, that it does so at the first lines that start with no item.
-/

set_option autoImplicit false

namespace Mensura
namespace Document

variable {α : Type} [Scalar α]

/-! ## Lines -/

/-- Whether a line is blank or a comment. -/
def saysNothing (text : String) : Bool :=
  let body := Text.trimChars text.toList
  body.isEmpty || body.head? = some '#'

/-- What a line that opens raw LaTeX has behind the fence. -/
def opened? (text : String) : Option (List Char) :=
  let body := Text.trimChars text.toList
  if fence.isPrefixOf body then some (body.drop fence.length) else none

/-- The statement of a line, blanks around it dropped. -/
def statementOf (text : String) : Result (Statement α) :=
  Statement.ofLine (String.ofList (Text.trimChars text.toList))

/-- Raw LaTeX is closed in the last of some texts and in none before: the texts before that, and
what stands before the fence and behind it. -/
inductive Closes : List (List Char) → List (List Char) → List Char → List Char → Prop
  | last {text before behind : List Char} :
    atFence? text = some (before, behind) → Closes [text] [] before behind
  | more {text : List Char} {texts inner : List (List Char)} {before behind : List Char} :
    atFence? text = none → Closes texts inner before behind →
    Closes (text :: texts) (text :: inner) before behind

/-- What the lines from a given one on start with. -/
inductive Item (line : Nat) : List String → Option (Nat × Statement α) → Prop
  | silent {text : String} : saysNothing text = true → Item line [text] none
  | statement {text : String} {s : Statement α} :
    saysNothing text = false → opened? text = none → statementOf text = .ok s →
    Item line [text] (some (line, s))
  | raw {text : String} {body : List Char} {lines : List String} {inner : List (List Char)}
      {before behind : List Char} :
    opened? text = some body → Closes (body :: lines.map String.toList) inner before behind →
    (Text.trimChars behind).isEmpty = true →
    Item line (text :: lines)
      (some (line, .raw ("\n".intercalate ((inner ++ [before]).map String.ofList))))

/-- The lines from a given one on start with no item, and why not. -/
inductive Failing (α : Type) [Scalar α] (line : Nat) : List String → Nat → Failure → Prop
  | statement {text : String} {rest : List String} {e : Failure} :
    saysNothing text = false → opened? text = none →
    (statementOf text : Result (Statement α)) = .error e → Failing α line (text :: rest) line e
  | unterminated {text : String} {body : List Char} {rest : List String} :
    opened? text = some body → (∀ t ∈ body :: rest.map String.toList, atFence? t = none) →
    Failing α line (text :: rest) line (.calc (.syntaxOf .rawUnterminated))
  | behindFence {text : String} {body : List Char} {lines rest : List String}
      {inner : List (List Char)} {before behind : List Char} :
    opened? text = some body → Closes (body :: lines.map String.toList) inner before behind →
    (Text.trimChars behind).isEmpty = false →
    Failing α line (text :: lines ++ rest) (line + lines.length) (.calc (.syntaxOf .textAfterRaw))

/-- Lines that are items throughout, with the statements of these. -/
inductive Reads : Nat → List String → Program α → Prop
  | nil {line : Nat} : Reads line [] []
  | item {line : Nat} {taken more : List String} {s : Option (Nat × Statement α)}
      {program : Program α} :
    Item line taken s → Reads (line + taken.length) more program →
    Reads line (taken ++ more) (s.toList ++ program)

/-! ## Single lines -/

theorem saysNothing_of_opened {text : String} {body : List Char} (h : opened? text = some body) :
    saysNothing text = false := by
  simp only [opened?, Option.ite_none_right_eq_some] at h
  obtain ⟨hfence, -⟩ := h
  obtain ⟨rest, hrest⟩ := List.isPrefixOf_iff_prefix.mp hfence
  simp [saysNothing, ← hrest, fence]

theorem sourceLine_silent {line : Nat} {text : String} (h : saysNothing text = true) :
    (sourceLine line .between text : Except DocumentFailure (Step α)) = .ok ⟨none, .between⟩ :=
  if_pos h

theorem sourceLine_statement {line : Nat} {text : String} (hs : saysNothing text = false)
    (ho : opened? text = none) :
    (sourceLine line .between text : Except DocumentFailure (Step α)) =
      match (statementOf text : Result (Statement α)) with
      | .ok s => .ok ⟨some (line, s), .between⟩
      | .error e => .error (.atLine line e) := by
  have hfence : fence.isPrefixOf (Text.trimChars text.toList) = false := by
    rw [Bool.eq_false_iff]
    intro hf
    simp [opened?, hf] at ho
  simp only [saysNothing] at hs
  simp only [sourceLine, hs, hfence, Bool.false_eq_true, if_false]
  rfl

theorem sourceLine_opened {line : Nat} {text : String} {body : List Char}
    (h : opened? text = some body) :
    (sourceLine line .between text : Except DocumentFailure (Step α)) =
      rawLine line line [] body := by
  have hs := saysNothing_of_opened h
  simp only [opened?, Option.ite_none_right_eq_some, Option.some.injEq] at h
  simp only [saysNothing] at hs
  simp only [sourceLine, hs, h.1, h.2, Bool.false_eq_true, if_false, if_true]

/-! ## Raw LaTeX -/

/-- Reading the texts of raw LaTeX one after another: the first of them stands behind the opening
fence, the others are lines. -/
def rawLines (line start : Nat) (chunks : List String) (body : List Char) (rest : List String) :
    Except DocumentFailure (Program α) := do
  let step ← rawLine line start chunks body
  let program ← ofLines (line + 1) step.next rest
  return step.statement.toList ++ program

theorem ofLines_inside {line start : Nat} {chunks : List String} {text : String}
    {rest : List String} :
    (ofLines line (.inside start chunks) (text :: rest) : Except DocumentFailure (Program α)) =
      rawLines line start chunks text.toList rest := by
  rw [ofLines]
  rfl

theorem ofLines_opened {line : Nat} {text : String} {body : List Char} {rest : List String}
    (h : opened? text = some body) :
    (ofLines line .between (text :: rest) : Except DocumentFailure (Program α)) =
      rawLines line line [] body rest := by
  rw [ofLines, sourceLine_opened h]
  rfl

theorem rawLines_closed {line start : Nat} {chunks rest : List String}
    {body before behind : List Char} (h : atFence? body = some (before, behind))
    (hbehind : (Text.trimChars behind).isEmpty = true) :
    (rawLines line start chunks body rest : Except DocumentFailure (Program α)) =
      (ofLines (line + 1) .between rest >>= fun program ↦ .ok
        ((start, .raw ("\n".intercalate (String.ofList before :: chunks).reverse)) :: program)) := by
  simp [rawLines, rawLine, h, hbehind]

theorem rawLines_behind {line start : Nat} {chunks rest : List String}
    {body before behind : List Char} (h : atFence? body = some (before, behind))
    (hbehind : (Text.trimChars behind).isEmpty = false) :
    (rawLines line start chunks body rest : Except DocumentFailure (Program α)) =
      .error (.error line (.syntaxOf .textAfterRaw)) := by
  simp [rawLines, rawLine, h, hbehind]

theorem rawLines_unfenced {line start : Nat} {chunks rest : List String} {body : List Char}
    (h : atFence? body = none) :
    (rawLines line start chunks body rest : Except DocumentFailure (Program α)) =
      ofLines (line + 1) (.inside start (String.ofList body :: chunks)) rest := by
  simp only [rawLines, rawLine, h, ok_bind, Option.toList_none, List.nil_append]
  exact bind_pure _

/-- Raw LaTeX that is closed is one statement, in the line that opens it. -/
theorem rawLines_of_closes {start : Nat} {rest : List String} {before behind : List Char}
    (hbehind : (Text.trimChars behind).isEmpty = true) {lines : List String} {body : List Char}
    {inner : List (List Char)} (h : Closes (body :: lines.map String.toList) inner before behind)
    (line : Nat) (chunks : List String) :
    (rawLines line start chunks body (lines ++ rest) : Except DocumentFailure (Program α)) =
      (ofLines (line + 1 + lines.length) .between rest >>= fun program ↦ .ok
        ((start, .raw ("\n".intercalate
          (chunks.reverse ++ (inner ++ [before]).map String.ofList))) :: program)) := by
  induction lines generalizing body inner line chunks with
  | nil =>
    cases h with
    | last h => simpa using rawLines_closed h hbehind
    | more _ h => cases h
  | cons text lines ih =>
    cases h with
    | more hbody h =>
      have hline : line + 1 + 1 + lines.length = line + 1 + (lines.length + 1) := by omega
      rw [rawLines_unfenced hbody, List.cons_append, ofLines_inside, ih h, List.length_cons, hline]
      simp

/-- Raw LaTeX with text behind it fails in the line that closes it. -/
theorem rawLines_of_closes_behind {start : Nat} {rest : List String} {before behind : List Char}
    (hbehind : (Text.trimChars behind).isEmpty = false) {lines : List String} {body : List Char}
    {inner : List (List Char)} (h : Closes (body :: lines.map String.toList) inner before behind)
    (line : Nat) (chunks : List String) :
    (rawLines line start chunks body (lines ++ rest) : Except DocumentFailure (Program α)) =
      .error (.error (line + lines.length) (.syntaxOf .textAfterRaw)) := by
  induction lines generalizing body inner line chunks with
  | nil =>
    cases h with
    | last h => simpa using rawLines_behind h hbehind
    | more _ h => cases h
  | cons text lines ih =>
    cases h with
    | more hbody h =>
      have hline : line + 1 + lines.length = line + (lines.length + 1) := by omega
      rw [rawLines_unfenced hbody, List.cons_append, ofLines_inside, ih h, List.length_cons, hline]

/-- Raw LaTeX that is never closed fails in the line that opens it. -/
theorem rawLines_of_unfenced {start : Nat} {lines : List String} {body : List Char}
    (h : ∀ t ∈ body :: lines.map String.toList, atFence? t = none) (line : Nat)
    (chunks : List String) :
    (rawLines line start chunks body lines : Except DocumentFailure (Program α)) =
      .error (.error start (.syntaxOf .rawUnterminated)) := by
  induction lines generalizing body line chunks with
  | nil => rw [rawLines_unfenced (h body List.mem_cons_self), ofLines]
  | cons text lines ih =>
    rw [rawLines_unfenced (h body List.mem_cons_self), ofLines_inside,
      ih fun t ht ↦ h t (List.mem_cons_of_mem _ ht)]

/-- Some texts are closed somewhere, or nowhere. -/
theorem exists_closes_or_unfenced (body : List Char) (lines : List String) :
    (∃ taken rest inner before behind, lines = taken ++ rest ∧
      Closes (body :: taken.map String.toList) inner before behind) ∨
    ∀ t ∈ body :: lines.map String.toList, atFence? t = none := by
  induction lines generalizing body with
  | nil =>
    cases h : atFence? body with
    | none => exact .inr (by simpa using h)
    | some parts => exact .inl ⟨[], [], [], parts.1, parts.2, rfl, .last h⟩
  | cons text lines ih =>
    cases h : atFence? body with
    | some parts => exact .inl ⟨[], text :: lines, [], parts.1, parts.2, rfl, .last h⟩
    | none =>
      rcases ih text.toList with ⟨taken, rest, inner, before, behind, hlines, hcloses⟩ | hnone
      · exact .inl ⟨text :: taken, rest, body :: inner, before, behind, by rw [hlines]; rfl,
          .more h hcloses⟩
      · exact .inr (by simpa [h] using hnone)

/-! ## What reading answers -/

/-- Reading goes on behind an item. -/
theorem ofLines_item {line : Nat} {taken more : List String} {s : Option (Nat × Statement α)}
    (h : Item line taken s) :
    ofLines line .between (taken ++ more) =
      (ofLines (line + taken.length) .between more >>= fun program ↦ .ok (s.toList ++ program)) := by
  cases h with
  | silent hs => rw [List.singleton_append, ofLines, sourceLine_silent hs]; rfl
  | statement hs ho hread =>
    rw [List.singleton_append, ofLines, sourceLine_statement hs ho, hread]
    rfl
  | @raw text body lines inner before behind ho hcloses hbehind =>
    have hline : line + 1 + lines.length = line + (lines.length + 1) := by omega
    rw [List.cons_append, ofLines_opened ho, rawLines_of_closes hbehind hcloses, List.length_cons,
      hline]
    simp

/-- Reading fails where no item starts. -/
theorem ofLines_failing {line n : Nat} {ls : List String} {e : Failure}
    (h : Failing α line ls n e) :
    (ofLines line .between ls : Except DocumentFailure (Program α)) = .error (.atLine n e) := by
  cases h with
  | statement hs ho hread => rw [ofLines, sourceLine_statement hs ho, hread]; rfl
  | unterminated ho hnone => rw [ofLines_opened ho, rawLines_of_unfenced hnone]; rfl
  | behindFence ho hcloses hbehind =>
    rw [List.cons_append, ofLines_opened ho, rawLines_of_closes_behind hbehind hcloses]
    rfl

/-- Lines start with an item, or fail. -/
theorem exists_item_or_failing (line : Nat) (text : String) (rest : List String) :
    (∃ taken more, ∃ s : Option (Nat × Statement α), text :: rest = taken ++ more ∧
      more.length ≤ rest.length ∧ Item line taken s) ∨
    ∃ n e, Failing α line (text :: rest) n e := by
  cases hs : saysNothing text with
  | true => exact .inl ⟨[text], rest, none, rfl, Nat.le_refl _, .silent hs⟩
  | false =>
    cases ho : opened? text with
    | none =>
      cases hread : (statementOf text : Result (Statement α)) with
      | ok s => exact .inl ⟨[text], rest, some (line, s), rfl, Nat.le_refl _, .statement hs ho hread⟩
      | error e => exact .inr ⟨line, e, .statement hs ho hread⟩
    | some body =>
      rcases exists_closes_or_unfenced body rest with
        ⟨taken, more, inner, before, behind, rfl, hcloses⟩ | hnone
      · cases hbehind : (Text.trimChars behind).isEmpty with
        | true => exact .inl ⟨text :: taken, more, _, rfl, by simp, .raw ho hcloses hbehind⟩
        | false => exact .inr ⟨_, _, .behindFence ho hcloses hbehind⟩
      · exact .inr ⟨line, _, .unterminated ho hnone⟩

/-- Reading goes on behind items. -/
theorem ofLines_append {line : Nat} {first : List String} {program : Program α}
    (h : Reads line first program) (rest : List String) :
    ofLines line .between (first ++ rest) =
      (ofLines (line + first.length) .between rest >>= fun more ↦ .ok (program ++ more)) := by
  induction h with
  | nil =>
    simp only [List.nil_append, List.length_nil, Nat.add_zero]
    exact (bind_pure _).symm
  | item hitem _ ih =>
    rw [List.append_assoc, ofLines_item hitem, ih]
    simp only [List.length_append, Nat.add_assoc, bind_assoc, ok_bind, List.append_assoc]

/-- Lines are items throughout, or items up to where no item starts. -/
theorem exists_reads_or_failing (line : Nat) (ls : List String) :
    (∃ program : Program α, Reads line ls program) ∨
    ∃ first rest n e, ∃ program : Program α, ls = first ++ rest ∧ Reads line first program ∧
      Failing α (line + first.length) rest n e := by
  induction hlen : ls.length using Nat.strongRecOn generalizing line ls with
  | ind length ih =>
    cases ls with
    | nil => exact .inl ⟨[], .nil⟩
    | cons text rest =>
      rcases exists_item_or_failing (α := α) line text rest with
        ⟨taken, more, s, hsplit, hle, hitem⟩ | ⟨n, e, hfail⟩
      · rw [hsplit]
        have hshorter : more.length < length := by rw [← hlen, List.length_cons]; omega
        rcases ih more.length hshorter (line + taken.length) more rfl with
          ⟨program, hreads⟩ | ⟨first, rest, n, e, program, rfl, hreads, hfail⟩
        · exact .inl ⟨_, .item hitem hreads⟩
        · refine .inr ⟨taken ++ first, rest, n, e, _, (List.append_assoc ..).symm,
            .item hitem hreads, ?_⟩
          rwa [List.length_append, ← Nat.add_assoc]
      · exact .inr ⟨[], text :: rest, n, e, [], rfl, .nil, hfail⟩

/-- **Reading succeeds exactly on lines that are items throughout.** -/
theorem ofLines_eq_ok {line : Nat} {ls : List String} {program : Program α} :
    ofLines line .between ls = .ok program ↔ Reads line ls program := by
  have hread : ∀ {program : Program α}, Reads line ls program →
      ofLines line .between ls = .ok program := by
    intro program h
    simpa [ofLines] using ofLines_append h []
  refine ⟨fun h ↦ ?_, hread⟩
  rcases exists_reads_or_failing (α := α) line ls with
    ⟨program', hreads⟩ | ⟨first, rest, n, e, program', rfl, hreads, hfail⟩
  · obtain rfl : program' = program := by simpa [h] using (hread hreads).symm
    exact hreads
  · simp [ofLines_append hreads, ofLines_failing hfail] at h

/-- **Reading fails at the first lines that start with no item.** -/
theorem ofLines_eq_error {line : Nat} {ls : List String} {f : DocumentFailure} :
    (ofLines line .between ls : Except DocumentFailure (Program α)) = .error f ↔
      ∃ first rest n e, ∃ program : Program α, ls = first ++ rest ∧ Reads line first program ∧
        Failing α (line + first.length) rest n e ∧ f = .atLine n e := by
  constructor
  · intro h
    rcases exists_reads_or_failing (α := α) line ls with
      ⟨program, hreads⟩ | ⟨first, rest, n, e, program, rfl, hreads, hfail⟩
    · simp [ofLines_eq_ok.mpr hreads] at h
    · refine ⟨first, rest, n, e, program, rfl, hreads, hfail, ?_⟩
      simpa [ofLines_append hreads, ofLines_failing hfail] using h.symm
  · rintro ⟨first, rest, n, e, program, rfl, hreads, hfail, rfl⟩
    rw [ofLines_append hreads, ofLines_failing hfail]
    rfl

end Document
end Mensura
