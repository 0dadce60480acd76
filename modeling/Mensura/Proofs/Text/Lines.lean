import Mensura.Text.Lines

/-!
# Lines of texts put together

A line feed in the middle of a text parts its lines: those up to and including it, and those behind
it (`lines_append`).  Ending a text with a line feed ends the last line, if one is open, and makes a
further empty one otherwise (`lines_lineFeed`), unless it only completes a carriage return.  A text
without line ends is one line (`lines_of_line`).
-/

set_option autoImplicit false

namespace Mensura
namespace Text

/-- What stands behind a line feed is split on its own. -/
theorem splitLines_append (line : List Char) (pending afterReturn : Bool) (cs rest : List Char) :
    splitLines line pending afterReturn (cs ++ '\n' :: rest) =
      splitLines line pending afterReturn (cs ++ ['\n']) ++ splitLines [] false false rest := by
  induction cs generalizing line pending afterReturn with
  | nil =>
    cases afterReturn with
    | true => rfl
    | false => rfl
  | cons c cs ih =>
    rw [List.cons_append, List.cons_append, splitLines, splitLines]
    split
    · exact ih ..
    split
    · rw [ih, List.cons_append]
    · exact ih ..

/-- The state between two lines: nothing is open, nor is it behind a carriage return. -/
theorem splitLines_lineFeed {line : List Char} {pending afterReturn : Bool}
    (hline : pending = false → line = []) (hreturn : afterReturn = true → pending = false)
    (cs : List Char) :
    splitLines line pending afterReturn (cs ++ ['\n']) = splitLines line pending afterReturn cs ∨
      splitLines line pending afterReturn (cs ++ ['\n']) =
        splitLines line pending afterReturn cs ++ [[]] := by
  induction cs generalizing line pending afterReturn with
  | nil =>
    cases afterReturn with
    | true =>
      left
      rw [hreturn rfl]
      rfl
    | false =>
      cases pending with
      | true => exact .inl rfl
      | false =>
        right
        rw [hline rfl]
        rfl
  | cons c cs ih =>
    rw [List.cons_append, splitLines, splitLines]
    split
    · exact ih (fun _ ↦ rfl) (fun _ ↦ rfl)
    split
    · exact (ih (fun _ ↦ rfl) (fun _ ↦ rfl)).imp (congrArg _) fun h ↦ by rw [h, List.cons_append]
    · exact ih nofun nofun

/-- **A line feed parts the lines of a text.** -/
theorem lines_append (a b : String) : lines (a ++ "\n" ++ b) = lines (a ++ "\n") ++ lines b := by
  have hlist (s : String) : (a ++ "\n" ++ s).toList = a.toList ++ '\n' :: s.toList := by
    simp [String.toList_append]
  have hend : (a ++ "\n").toList = a.toList ++ ['\n'] := by simp [String.toList_append]
  rw [lines, lines, lines, hlist, hend, splitLines_append, List.map_append]

/-- A line feed at the end of a text adds an empty line, if it adds any. -/
theorem lines_lineFeed (a : String) : lines (a ++ "\n") = lines a ∨
    lines (a ++ "\n") = lines a ++ [""] := by
  have hend : (a ++ "\n").toList = a.toList ++ ['\n'] := by simp [String.toList_append]
  rw [lines, lines, hend]
  refine (splitLines_lineFeed (fun _ ↦ rfl) (fun _ ↦ rfl) a.toList).imp (congrArg _) fun h ↦ ?_
  rw [h, List.map_append]
  rfl

/-! ## Characters that end no line -/

/-- A line feed ends the line that is open. -/
theorem splitLines_line {line cs : List Char} {pending : Bool}
    (h : ∀ c ∈ cs, isLineEnd c = false) (rest : List Char) :
    splitLines line pending false (cs ++ '\n' :: rest) =
      (line.reverse ++ cs) :: splitLines [] false false rest := by
  induction cs generalizing line pending with
  | nil =>
    rw [List.append_nil]
    rfl
  | cons c cs ih =>
    obtain ⟨hc, hcs⟩ := List.forall_mem_cons.mp h
    simp [splitLines, hc, ih hcs]

/-- Without a line feed the line goes on to the end. -/
theorem splitLines_open {cs : List Char} (h : ∀ c ∈ cs, isLineEnd c = false) (line : List Char) :
    splitLines line true false cs = [line.reverse ++ cs] := by
  induction cs generalizing line with
  | nil => simp [splitLines]
  | cons c cs ih =>
    obtain ⟨hc, hcs⟩ := List.forall_mem_cons.mp h
    simp [splitLines, hc, ih hcs]

theorem splitLines_of_line {cs : List Char} (hne : cs ≠ [])
    (h : ∀ c ∈ cs, isLineEnd c = false) : splitLines [] false false cs = [cs] := by
  obtain ⟨c, cs, rfl⟩ := List.exists_cons_of_ne_nil hne
  obtain ⟨hc, hcs⟩ := List.forall_mem_cons.mp h
  simp [splitLines, hc, splitLines_open hcs]

/-- A text that ends no line is one line. -/
theorem lines_of_line {s : String} (hne : s.toList ≠ [])
    (h : ∀ c ∈ s.toList, isLineEnd c = false) : lines s = [s] := by
  rw [lines, splitLines_of_line hne h, List.map_singleton, String.ofList_toList]

end Text
end Mensura
