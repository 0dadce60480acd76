import Mensura.Statement.Parser
import Mensura.Text.Lines

/-!
# The source of a document

A source has one statement a line.  Blank lines and lines starting with `#` say nothing; raw LaTeX
may run over several lines.  Reading walks over the lines once, in one of two modes: between
statements, or inside raw LaTeX with the lines it has so far.
-/

set_option autoImplicit false

namespace Mensura

/-- What stops a document.  An error of the calculator is located in a line, counted from one. -/
inductive DocumentFailure
  | error (line : Nat) (error : CalcError)
  | fault (fault : Fault)
  deriving DecidableEq, Repr

namespace DocumentFailure

/-- A failure while the given line is worked on. -/
def atLine (line : Nat) : Failure → DocumentFailure
  | .calc e => error line e
  | .fault f => fault f

/-- The wording of a failure. -/
def message : DocumentFailure → String
  | error line e => "Line " ++ toString line ++ ": " ++ e.message
  | fault f => f.message

end DocumentFailure

namespace Document

variable {α : Type} [Scalar α]

/-- The statements of a source with the lines where they start. -/
abbrev Program (α : Type) [Scalar α] := List (Nat × Statement α)

/-- Three quotes open and close raw LaTeX. -/
def fence : List Char := ['\'', '\'', '\'']

/-- What stands before the first fence of a line and what behind it. -/
def atFence? : List Char → Option (List Char × List Char)
  | [] => none
  | c :: rest =>
    if fence.isPrefixOf (c :: rest) then some ([], (c :: rest).drop fence.length)
    else (atFence? rest).map fun (before, behind) ↦ (c :: before, behind)

/-- Where reading stands: between statements, or inside raw LaTeX that started in a line and has
some lines already, the latest first. -/
inductive Mode
  | between
  | inside (start : Nat) (chunks : List String)

/-- What one line comes to: a statement or none, and how to go on. -/
structure Step (α : Type) [Scalar α] where
  statement : Option (Nat × Statement α)
  next : Mode

/-- A line of raw LaTeX, its own fence taken off if it opens there. -/
def rawLine (line start : Nat) (chunks : List String) (body : List Char) :
    Except DocumentFailure (Step α) :=
  match atFence? body with
  | none => .ok ⟨none, .inside start (String.ofList body :: chunks)⟩
  | some (before, behind) =>
    if (Text.trimChars behind).isEmpty then
      let text := "\n".intercalate (String.ofList before :: chunks).reverse
      .ok ⟨some (start, .raw text), .between⟩
    else .error (.error line (.syntaxOf .textAfterRaw))

/-- One line of a source. -/
def sourceLine (line : Nat) (mode : Mode) (text : String) : Except DocumentFailure (Step α) :=
  match mode with
  | .inside start chunks => rawLine line start chunks text.toList
  | .between =>
    let body := Text.trimChars text.toList
    if body.isEmpty || body.head? = some '#' then .ok ⟨none, .between⟩
    else if fence.isPrefixOf body then rawLine line line [] (body.drop fence.length)
    else
      match Statement.ofLine (String.ofList body) with
      | .ok s => .ok ⟨some (line, s), .between⟩
      | .error e => .error (.atLine line e)

/-- The statements of the lines from a given one on. -/
def ofLines (line : Nat) (mode : Mode) : List String → Except DocumentFailure (Program α)
  | [] =>
    match mode with
    | .between => .ok []
    | .inside start _ => .error (.error start (.syntaxOf .rawUnterminated))
  | text :: rest => do
    let step ← sourceLine line mode text
    let program ← ofLines (line + 1) step.next rest
    return step.statement.toList ++ program

/-- The program of a source. -/
def ofText (source : String) : Except DocumentFailure (Program α) :=
  ofLines 1 .between (Text.lines source)

end Document
end Mensura
