import Mathlib.Data.List.TakeWhile

/-!
# Runs of characters

The characters of a class in front of a text: `takeWhile` gives the longest run of them, and the
readers go on with what is left when as many characters are dropped.
-/

set_option autoImplicit false

namespace Mensura
namespace Text

variable {p : Char → Bool} {cs rest : List Char}

theorem mem_takeWhile : ∀ c ∈ cs.takeWhile p, p c = true :=
  List.all_eq_true.mp List.all_takeWhile

/-- A prefix of characters of a class is no longer than the run of them. -/
theorem length_le_takeWhile {xs : List Char} (h : xs <+: cs) (hp : ∀ c ∈ xs, p c = true) :
    xs.length ≤ (cs.takeWhile p).length := by
  obtain ⟨rest, rfl⟩ := h
  rw [List.takeWhile_append_of_pos hp, List.length_append]
  exact Nat.le_add_right _ _

theorem take_takeWhile (p : Char → Bool) (cs : List Char) :
    cs.take (cs.takeWhile p).length = cs.takeWhile p :=
  (List.prefix_iff_eq_take.mp (List.takeWhile_prefix p)).symm

theorem takeWhile_append_drop (p : Char → Bool) (cs : List Char) :
    cs.takeWhile p ++ cs.drop (cs.takeWhile p).length = cs :=
  List.prefix_iff_eq_append.mp (List.takeWhile_prefix p)

/-- A run goes as far as it can. -/
theorem head_drop_takeWhile : ∀ c ∈ (cs.drop (cs.takeWhile p).length).head?, p c = false := by
  have hdrop : cs.drop (cs.takeWhile p).length = cs.dropWhile p :=
    List.append_cancel_left
      ((takeWhile_append_drop p cs).trans List.takeWhile_append_dropWhile.symm)
  intro c hc
  rw [hdrop] at hc
  have hhead := List.head?_dropWhile_not p cs
  rw [Option.mem_def.mp hc] at hhead
  exact hhead

/-- What does not go on with the class leaves the run as it is. -/
theorem takeWhile_append_of_head (h : ∀ c ∈ rest.head?, p c = false) :
    (cs ++ rest).takeWhile p = cs.takeWhile p := by
  induction cs with
  | nil =>
    cases rest with
    | nil => rfl
    | cons c rest => simp [h c (by simp)]
  | cons c cs ih => simp only [List.cons_append, List.takeWhile_cons, ih]

/-- Characters of a class are a run where something else stands behind them. -/
theorem takeWhile_run (hcs : ∀ c ∈ cs, p c = true) (hrest : ∀ c ∈ rest.head?, p c = false) :
    (cs ++ rest).takeWhile p = cs :=
  (takeWhile_append_of_head hrest).trans (List.takeWhile_eq_self_iff.mpr hcs)

end Text
end Mensura
