import Mensura.Text.Blank
import Mensura.Proofs.Text.Run

/-!
# Trimmed texts

A text is what is left of it between the blanks that are trimmed off; characters that are no blanks
stay in it.
-/

set_option autoImplicit false

namespace Mensura
namespace Text

variable {c : Char} {cs : List Char}

theorem exists_trimStart_append (cs : List Char) :
    ∃ blanks, (∀ c ∈ blanks, isBlank c = true) ∧ cs = blanks ++ trimStart cs :=
  ⟨cs.takeWhile isBlank, mem_takeWhile, List.takeWhile_append_dropWhile.symm⟩

theorem exists_trimEnd_append (cs : List Char) :
    ∃ blanks, (∀ c ∈ blanks, isBlank c = true) ∧ cs = trimEnd cs ++ blanks := by
  obtain ⟨blanks, hblanks, hcs⟩ := exists_trimStart_append cs.reverse
  refine ⟨blanks.reverse, fun c hc ↦ hblanks c (List.mem_reverse.mp hc), ?_⟩
  rw [trimEnd, ← trimStart, ← List.reverse_append, ← hcs, List.reverse_reverse]

theorem trimStart_blanks_append {blanks : List Char} (h : ∀ c ∈ blanks, isBlank c = true)
    (cs : List Char) : trimStart (blanks ++ cs) = trimStart cs :=
  List.dropWhile_append_of_pos h

theorem trimStart_cons (h : isBlank c = false) : trimStart (c :: cs) = c :: cs :=
  List.dropWhile_cons_of_neg (by simp [h])

theorem not_isBlank_of_trimStart {rest : List Char} (h : trimStart cs = c :: rest) :
    isBlank c = false := by
  have hhead := List.head?_dropWhile_not isBlank cs
  rw [← trimStart, h] at hhead
  exact hhead

theorem trimEnd_concat (h : isBlank c = false) : trimEnd (cs ++ [c]) = cs ++ [c] := by
  simp [trimEnd, h]

theorem trimEnd_concat_blank (h : isBlank c = true) : trimEnd (cs ++ [c]) = trimEnd cs := by
  simp [trimEnd, h]

/-- What begins with no blank still begins so with the blanks at its end off. -/
theorem trimEnd_cons (h : isBlank c = false) (cs : List Char) :
    trimEnd (c :: cs) = c :: trimEnd cs := by
  rw [trimEnd, trimEnd, List.reverse_cons, List.dropWhile_append]
  split
  · next hall => simp [h, List.isEmpty_iff.mp hall]
  · rw [List.reverse_append, List.reverse_singleton, List.singleton_append]

theorem exists_trimEnd_cons (h : isBlank c = false) (cs : List Char) :
    ∃ ds, trimEnd (c :: cs) = c :: ds :=
  ⟨trimEnd cs, trimEnd_cons h cs⟩

/-- Nothing is trimmed exactly if the last character is no blank. -/
theorem trimEnd_eq_self_iff : trimEnd cs = cs ↔ ¬∃ c, cs.getLast? = some c ∧ isBlank c = true := by
  rcases List.eq_nil_or_concat cs with rfl | ⟨front, d, rfl⟩
  · simp [trimEnd]
  · rw [List.concat_eq_append]
    cases hd : isBlank d with
    | true =>
      rw [trimEnd_concat_blank hd]
      refine iff_of_false (fun heq ↦ ?_) (not_not_intro ⟨d, by simp, hd⟩)
      obtain ⟨blanks, -, hfront⟩ := exists_trimEnd_append front
      have hlength := congrArg List.length hfront
      rw [heq] at hlength
      simp at hlength
    | false => simp [trimEnd_concat hd, hd]

theorem mem_trimStart (hc : isBlank c = false) (h : c ∈ cs) : c ∈ trimStart cs := by
  obtain ⟨blanks, hblanks, hcs⟩ := exists_trimStart_append cs
  rw [hcs] at h
  exact (List.mem_append.mp h).resolve_left fun hb ↦ absurd (hblanks c hb) (by simp [hc])

theorem mem_trimEnd (hc : isBlank c = false) (h : c ∈ cs) : c ∈ trimEnd cs := by
  obtain ⟨blanks, hblanks, hcs⟩ := exists_trimEnd_append cs
  rw [hcs] at h
  exact (List.mem_append.mp h).resolve_right fun hb ↦ absurd (hblanks c hb) (by simp [hc])

theorem mem_trimChars (hc : isBlank c = false) (h : c ∈ cs) : c ∈ trimChars cs :=
  mem_trimEnd hc (mem_trimStart hc h)

end Text
end Mensura
