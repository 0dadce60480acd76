import Mensura.Proofs.Document.Items
import Mensura.Proofs.Text.Lines
import Mensura.Scalar.Binary64

/-!
# Sources put together

Two sources with a line feed between them are read one after the other.  The statements of the
second, or the line at which it cannot be read, only move down by the lines of the first.

Items do not know where they stand: `Item.moved`, `Reads.moved` and `Failing.moved` move what is
read, and where reading fails, to other lines.  `Reads.lineFeed` says that ending the last line of a
source, or adding an empty one, changes nothing.  `ofText_append` puts both together.
-/

set_option autoImplicit false

namespace Mensura

namespace DocumentFailure

/-- A failure some lines further down. -/
def moved (n : Nat) : DocumentFailure → DocumentFailure
  | error line e => error (n + line) e
  | fault f => fault f

theorem moved_atLine (n line : Nat) (e : Failure) :
    (atLine line e).moved n = atLine (n + line) e := by
  cases e <;> rfl

end DocumentFailure

namespace Document

variable {α : Type} [Scalar α]

/-- A program some lines further down. -/
def Program.moved (n : Nat) (program : Program α) : Program α :=
  program.map fun entry ↦ (n + entry.1, entry.2)

/-! ## Items some lines further down -/

theorem Item.moved {line : Nat} {ls : List String} {s : Option (Nat × Statement α)}
    (h : Item line ls s) (n : Nat) :
    Item (n + line) ls (s.map fun entry ↦ (n + entry.1, entry.2)) := by
  cases h with
  | silent hs => exact .silent hs
  | statement hs ho hread => exact .statement hs ho hread
  | raw ho hcloses hbehind => exact .raw ho hcloses hbehind

theorem Reads.moved {line : Nat} {ls : List String} {program : Program α}
    (h : Reads line ls program) (n : Nat) : Reads (n + line) ls (program.moved n) := by
  induction h with
  | nil => exact .nil
  | @item line taken more s program hitem _ ih =>
    have hentries : Program.moved n (s.toList ++ program) =
        (s.map fun entry ↦ (n + entry.1, entry.2)).toList ++ program.moved n := by
      cases s <;> rfl
    rw [hentries]
    exact .item (hitem.moved n) (by rwa [Nat.add_assoc])

theorem Failing.moved {line m : Nat} {ls : List String} {e : Failure}
    (h : Failing α line ls m e) (n : Nat) : Failing α (n + line) ls (n + m) e := by
  cases h with
  | statement hs ho hread => exact .statement hs ho hread
  | unterminated ho hnone => exact .unterminated ho hnone
  | behindFence ho hcloses hbehind =>
    rw [← Nat.add_assoc]
    exact .behindFence ho hcloses hbehind

/-! ## One source behind another -/

theorem Reads.append {line : Nat} {first second : List String} {p q : Program α}
    (hp : Reads line first p) (hq : Reads (line + first.length) second q) :
    Reads line (first ++ second) (p ++ q) := by
  rw [← ofLines_eq_ok, ofLines_append hp, ofLines_eq_ok.mpr hq]
  rfl

/-- A line feed behind a source ends its last line or adds an empty one; neither says anything. -/
theorem Reads.lineFeed {a : String} {p : Program α} (h : Reads 1 (Text.lines a) p) :
    Reads 1 (Text.lines (a ++ "\n")) p := by
  rcases Text.lines_lineFeed a with hsame | hempty
  · rwa [hsame]
  · rw [hempty, ← List.append_nil p]
    exact h.append (.item (.silent rfl) .nil)

/-- What follows a source on new lines is read as on its own, its lines counted on. -/
theorem ofText_append_eq {a : String} {p : Program α} (ha : ofText a = .ok p) (b : String) :
    ofText (a ++ "\n" ++ b) =
      match (ofText b : Except DocumentFailure (Program α)) with
      | .ok q => .ok (p ++ q.moved (Text.lines (a ++ "\n")).length)
      | .error f => .error (f.moved (Text.lines (a ++ "\n")).length) := by
  have hfirst : Reads 1 (Text.lines (a ++ "\n")) p := (ofLines_eq_ok.mp ha).lineFeed
  rw [ofText, Text.lines_append, ofLines_append hfirst, Nat.add_comm, ofText]
  rcases exists_reads_or_failing (α := α) 1 (Text.lines b) with
    ⟨q, hq⟩ | ⟨first, rest, k, e, q, hsplit, hq, hfail⟩
  · rw [ofLines_eq_ok.mpr hq, ofLines_eq_ok.mpr (hq.moved _)]
    rfl
  · have hfail' := hfail.moved (Text.lines (a ++ "\n")).length
    rw [← Nat.add_assoc] at hfail'
    rw [hsplit, ofLines_append hq, ofLines_append (hq.moved _), ofLines_failing hfail,
      ofLines_failing hfail', ← DocumentFailure.moved_atLine]
    rfl

/-- **Sources are read one after the other.**  If a source is read, then what follows it on new
lines is read, or not, as on its own, with the lines counted on from those of the first. -/
theorem ofText_append {a : String} {p : Program α} (ha : ofText a = .ok p) (b : String) :
    (∀ q : Program α, ofText b = .ok q →
      ofText (a ++ "\n" ++ b) = .ok (p ++ q.moved (Text.lines (a ++ "\n")).length)) ∧
    (∀ k e, (ofText b : Except DocumentFailure (Program α)) = .error (.error k e) →
      (ofText (a ++ "\n" ++ b) : Except DocumentFailure (Program α)) =
        .error (.error ((Text.lines (a ++ "\n")).length + k) e)) ∧
    ∀ f, (ofText b : Except DocumentFailure (Program α)) = .error (.fault f) →
      (ofText (a ++ "\n" ++ b) : Except DocumentFailure (Program α)) = .error (.fault f) := by
  have happend := ofText_append_eq ha b
  refine ⟨fun q hb ↦ ?_, fun k e hb ↦ ?_, fun f hb ↦ ?_⟩
  · rw [happend, hb]
  · rw [happend, hb]
    rfl
  · rw [happend, hb]
    rfl

/-- Raw LaTeX over two lines, the first ended by a carriage return, moves what follows down by three
lines; so it does a fence that is missing there. -/
theorem ofText_append_raw :
    (ofText "digits 4\r'''x\ny'''" : Except DocumentFailure (Program Float)) =
        .ok [(1, .digits 4), (2, .raw "x\ny")] ∧
      (ofText ("digits 4\r'''x\ny'''" ++ "\n" ++ "\r\n---") :
          Except DocumentFailure (Program Float)) =
        .ok [(1, .digits 4), (2, .raw "x\ny"), (5, .gap)] ∧
      (ofText ("digits 4\r'''x\ny'''" ++ "\n" ++ "---\n'''z") :
          Except DocumentFailure (Program Float)) =
        .error (.error 5 (.syntaxOf .rawUnterminated)) := by
  have hfirst : (ofText "digits 4\r'''x\ny'''" : Except DocumentFailure (Program Float)) =
      .ok [(1, .digits 4), (2, .raw "x\ny")] := rfl
  exact ⟨hfirst, (ofText_append hfirst "\r\n---").1 [(2, .gap)] rfl,
    (ofText_append hfirst "---\n'''z").2.1 2 _ rfl⟩

end Document
end Mensura
