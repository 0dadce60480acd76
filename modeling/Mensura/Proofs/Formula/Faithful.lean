import Mensura.Proofs.Formula.Precedence

/-!
# Typeset formulas tell the formula

Typesetting adds no parentheses.  Those that a formula was written with are enough: cut into words
again, a typeset formula gives the words of the formula back, with commands in place of its
operators, and an ordered formula is determined by its words.

* `splits_latex`: what a typeset formula splits into.
* `plain_command`: a command tells its word, unless a proposition has a backslash and looks like
  one.
* `Ordered.eq_of_texts_eq`: the words tell the formula.
* `latex_faithful`: so two texts that are typeset alike say one formula.
-/

set_option autoImplicit false

namespace Mensura
namespace Formula

open Text

/-! ## Commands -/

/-- The command for a negation. -/
def notCommand : String := "\\neg"

/-- A word of a formula as it is typeset: operators have commands. -/
def command (s : String) : String :=
  if s = notWord then notCommand
  else ((Connective.ofWord? s).map Connective.command).getD s

/-- The word that is typeset as a command. -/
def plain (s : String) : String :=
  if s = notCommand then notWord
  else ((Connective.all.find? (·.command = s)).map Connective.word).getD s

theorem command_notWord : command notWord = notCommand :=
  rfl

theorem command_word (op : Connective) : command op.word = op.command := by
  cases op <;> rfl

theorem command_of_not_mem {s : String} (h : s ∉ operatorWords) : command s = s := by
  simp only [mem_operatorWords, not_or, not_exists] at h
  rw [command, if_neg h.1, Option.eq_none_iff_forall_ne_some.mpr h.2]
  rfl

/-- All commands have a backslash. -/
theorem plain_of_not_mem {s : String} (h : '\\' ∉ s.toList) : plain s = s := by
  have hnot : s ≠ notCommand := by
    rintro rfl
    exact h (by decide)
  have hnone : Connective.all.find? (·.command = s) = none := by
    refine List.find?_eq_none.mpr fun op _ hop ↦ h ?_
    rw [← of_decide_eq_true hop]
    cases op <;> decide
  rw [plain, if_neg hnot, hnone]
  rfl

/-- **A command tells its word**, and a word without a backslash stands for itself. -/
theorem plain_command {s : String} (h : '\\' ∉ s.toList) : plain (command s) = s := by
  by_cases hoperator : s ∈ operatorWords
  · rcases mem_operatorWords.mp hoperator with rfl | ⟨op, hop⟩
    · rfl
    · rw [ofWord?_eq_some.mp hop, command_word]
      cases op <;> rfl
  · rw [command_of_not_mem hoperator, plain_of_not_mem h]

/-- If no proposition has a backslash, no word of the formula does. -/
theorem backslash_not_mem_texts {f : Formula} (h : ∀ name ∈ f.names, '\\' ∉ name.toList) :
    ∀ s ∈ f.texts, '\\' ∉ s.toList := by
  induction f with
  | prop name => exact h
  | paren inner ih =>
    refine List.forall_mem_cons.mpr ⟨by decide, List.forall_mem_append.mpr ⟨ih h, ?_⟩⟩
    exact List.forall_mem_cons.mpr ⟨by decide, List.forall_mem_nil _⟩
  | not operand ih => exact List.forall_mem_cons.mpr ⟨by decide, ih h⟩
  | binary op left right ihleft ihright =>
    obtain ⟨hleft, hright⟩ := List.forall_mem_append.mp h
    refine List.forall_mem_append.mpr ⟨ihleft hleft, List.forall_mem_cons.mpr ⟨?_, ihright hright⟩⟩
    cases op <;> decide

/-! ## The words of a typeset formula -/

theorem isPiece_notCommand : IsPiece notCommand :=
  .inr (.inr (.cons (by decide) (List.all_eq_true.mp (by decide))))

theorem isPiece_command (op : Connective) : IsPiece op.command := by
  cases op <;> exact .inr (.inr (.cons (by decide) (List.all_eq_true.mp (by decide))))

/-- A piece with a blank behind it is split off. -/
theorem IsPiece.splits_blank {text : String} {cs : List Char} {ls : List String}
    (h : IsPiece text) (hsplits : Splits cs ls) :
    Splits (text.toList ++ ' ' :: cs) (text :: ls) :=
  h.splits (by simp [show isWordChar ' ' = false by decide]) (.blank (by decide) hsplits)

/-- **A typeset formula splits into the commands for its words**, whatever it stands before. -/
theorem splits_latex_append {f : Formula} (hnames : ∀ name ∈ f.names, IsProposition name)
    {cs : List Char} {ls : List String} (hcs : ∀ c ∈ cs.head?, isWordChar c = false)
    (hsplits : Splits cs ls) : Splits (f.latex.toList ++ cs) (f.texts.map command ++ ls) := by
  induction f generalizing cs ls with
  | prop name =>
    have hname := hnames name List.mem_cons_self
    have hpiece : IsPiece name := .inr (.inr hname.isWord)
    rw [texts, List.map_singleton, command_of_not_mem hname.not_operator]
    exact hpiece.splits hcs hsplits
  | paren inner ih =>
    have hclose : Splits (')' :: cs) (")" :: ls) := .paren (.inr rfl) hsplits
    have hinner := ih hnames (by simp [show isWordChar ')' = false by decide]) hclose
    have hopen : Splits ('(' :: _) ("(" :: _) := .paren (.inl rfl) hinner
    have hparen : command "(" = "(" ∧ command ")" = ")" := by decide
    simpa [latex, texts, hparen] using hopen
  | not operand ih =>
    have hneg := isPiece_notCommand.splits_blank (ih hnames hcs hsplits)
    simpa [latex, texts, command_notWord, notCommand] using hneg
  | binary op left right ihleft ihright =>
    obtain ⟨hleft, hright⟩ := List.forall_mem_append.mp hnames
    have hop := (isPiece_command op).splits_blank (ihright hright hcs hsplits)
    have hblank : Splits (' ' :: _) _ := .blank (by decide) hop
    have hall := ihleft hleft (by simp [show isWordChar ' ' = false by decide]) hblank
    simpa [latex, texts, command_word] using hall

theorem splits_latex {f : Formula} (hnames : ∀ name ∈ f.names, IsProposition name) :
    Splits f.latex.toList (f.texts.map command) := by
  simpa using splits_latex_append hnames (by simp) .nil

/-! ## Words of ordered formulas -/

/-- A text says one formula at most. -/
theorem Says.unique {text : String} {f g : Formula} (hf : Says text f) (hg : Says text g) :
    f = g := by
  have hread : ofText text = .ok f := ofText_eq_ok_iff.mpr hf
  rw [ofText_eq_ok_iff.mpr hg] at hread
  exact (Except.ok.inj hread).symm

/-- **The words of an ordered formula tell it.** -/
theorem Ordered.eq_of_texts_eq {f g : Formula} (hf : f.Ordered) (hg : g.Ordered)
    (hfnames : ∀ name ∈ f.names, IsProposition name)
    (hgnames : ∀ name ∈ g.names, IsProposition name) (h : f.texts = g.texts) : f = g := by
  have hsays : Says (" ".intercalate f.texts) f :=
    ⟨hf, hfnames, splits_intercalate (isPiece_of_mem_texts hfnames)⟩
  have hsays' : Says (" ".intercalate g.texts) g :=
    ⟨hg, hgnames, splits_intercalate (isPiece_of_mem_texts hgnames)⟩
  rw [h] at hsays
  exact hsays.unique hsays'

/-- **Typeset formulas are faithful.**  Two texts whose propositions have no backslash are typeset
alike only if they are read as one formula, which has one column in every truth table. -/
theorem latex_faithful {s t : String} {f g : Formula} (hf : ofText s = .ok f)
    (hg : ofText t = .ok g) (hfnames : ∀ name ∈ f.names, '\\' ∉ name.toList)
    (hgnames : ∀ name ∈ g.names, '\\' ∉ name.toList) (h : f.latex = g.latex) : f = g := by
  have hsays := ofText_eq_ok_iff.mp hf
  have hsays' := ofText_eq_ok_iff.mp hg
  have hsplits := splits_latex hsays.isProposition
  rw [h] at hsplits
  have hcommands : f.texts.map command = g.texts.map command :=
    hsplits.unique (splits_latex hsays'.isProposition)
  have hplain {e : Formula} (he : ∀ name ∈ e.names, '\\' ∉ name.toList) :
      (e.texts.map command).map plain = e.texts := by
    rw [List.map_map]
    calc e.texts.map (plain ∘ command)
        = e.texts.map id :=
          List.map_congr_left fun s hs ↦ plain_command (backslash_not_mem_texts he s hs)
      _ = e.texts := List.map_id _
  have htexts : f.texts = g.texts := by
    rw [← hplain hfnames, hcommands, hplain hgnames]
  exact hsays.ordered.eq_of_texts_eq hsays'.ordered hsays.isProposition hsays'.isProposition htexts

/-- A letter is a proposition. -/
theorem isProposition_letter {c : Char} (hc : startsWord c = true)
    (h : String.ofList [c] ∉ operatorWords) : IsProposition (String.ofList [c]) where
  isWord := by
    rw [String.toList_ofList]
    exact .cons hc (by simp)
  not_operator := h

/-- A formula that is written once with blanks between all words and once with none that it can do
without. -/
theorem latex_faithful_spacing :
    ∃ f g : Formula, ofText "not(p or q)implies p" = .ok f ∧
      ofText "not ( p or q ) implies p" = .ok g ∧
      (∀ name ∈ f.names, '\\' ∉ name.toList) ∧ (∀ name ∈ g.names, '\\' ∉ name.toList) ∧
      f.latex = "\\neg (p \\lor q) \\implies p" ∧ f.latex = g.latex ∧ f = g := by
  let f : Formula :=
    binary .implies (not (paren (binary .or (prop "p") (prop "q")))) (prop "p")
  have hordered : f.Ordered := by decide
  have hnames : ∀ name ∈ f.names, IsProposition name := by
    intro name hname
    have hcases : name = "p" ∨ name = "q" ∨ name = "p" := by simpa [f, names] using hname
    rcases hcases with rfl | rfl | rfl
    · exact isProposition_letter (c := 'p') (by decide) (by decide)
    · exact isProposition_letter (c := 'q') (by decide) (by decide)
    · exact isProposition_letter (c := 'p') (by decide) (by decide)
  have hbackslash : ∀ name ∈ f.names, '\\' ∉ name.toList := by decide
  have htight : ofText "not(p or q)implies p" = .ok f :=
    ofText_eq_ok_iff.mpr ⟨hordered, hnames, exists_words_iff.mp ⟨_, rfl, rfl⟩⟩
  have hspaced : ofText "not ( p or q ) implies p" = .ok f :=
    ofText_eq_ok_iff.mpr ⟨hordered, hnames, exists_words_iff.mp ⟨_, rfl, rfl⟩⟩
  exact ⟨f, f, htight, hspaced, hbackslash, hbackslash, rfl, rfl,
    latex_faithful htight hspaced hbackslash hbackslash rfl⟩

end Formula
end Mensura
