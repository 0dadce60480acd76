import Mensura.Proofs.Formula.Word

/-!
# Formulas and their precedence

A formula is read from its words in one way only: connectives take what binds at least as tightly on
their left, and what binds more tightly on their right.  `Ordered` says so of a formula, and `texts`
are its words from left to right.

* `Derives` is what the reader reads, without its fuel (`readAs_iff_derives`).
* `Derives.ordered`: what is derived from some words is ordered, and these are its words.
* `Ordered.derives`: an ordered formula is derived from its words.
* `ofText_precedence`: so a text is read as a formula exactly if that is ordered and the text splits
  into its words; every other text is declined.
-/

set_option autoImplicit false

namespace Mensura
namespace Formula

/-! ## Words and order -/

/-- The words of a formula from left to right. -/
def texts : Formula → List String
  | prop name => [name]
  | paren inner => "(" :: (inner.texts ++ [")"])
  | not operand => notWord :: operand.texts
  | binary op left right => left.texts ++ op.word :: right.texts

/-- The propositions of a formula. -/
def names : Formula → List String
  | prop name => [name]
  | paren inner => inner.names
  | not operand => operand.names
  | binary _ left right => left.names ++ right.names

/-- The connective on top of a formula; a proposition, a parenthesis and a negation have none. -/
def outer? : Formula → Option Connective
  | binary op _ _ => some op
  | _ => none

/-- A formula holds together at least as tightly as some power. -/
def Binds (power : Nat) (f : Formula) : Prop :=
  ∀ op ∈ f.outer?, power ≤ op.power

/-- The left side of every connective binds at least as tightly as the connective, the right side
more tightly, and nothing with a connective on top stands behind a `not`. -/
def Ordered : Formula → Prop
  | prop _ => True
  | paren inner => inner.Ordered
  | not operand => operand.outer? = none ∧ operand.Ordered
  | binary op left right =>
    (left.Binds op.power ∧ left.Ordered) ∧ right.Binds (op.power + 1) ∧ right.Ordered

instance (power : Nat) (f : Formula) : Decidable (f.Binds power) :=
  inferInstanceAs (Decidable (∀ op ∈ f.outer?, power ≤ op.power))

instance Ordered.decide : (f : Formula) → Decidable f.Ordered
  | prop _ => .isTrue trivial
  | paren inner => Ordered.decide inner
  | not operand =>
    have := Ordered.decide operand
    inferInstanceAs (Decidable (operand.outer? = none ∧ operand.Ordered))
  | binary op left right =>
    have := Ordered.decide left
    have := Ordered.decide right
    inferInstanceAs (Decidable ((left.Binds op.power ∧ left.Ordered) ∧
      right.Binds (op.power + 1) ∧ right.Ordered))

/-- The words that are no propositions. -/
def operatorWords : List String :=
  notWord :: Connective.all.map Connective.word

/-- A proposition: a word that is no operator. -/
structure IsProposition (name : String) : Prop where
  isWord : IsWord name.toList
  not_operator : name ∉ operatorWords

/-- The words that a reader takes for no proposition. -/
def reserved : List String :=
  "(" :: ")" :: operatorWords

/-! ## Derivations -/

/-- What a stretch of words is read as. -/
inductive Part
  /-- A formula whose connectives bind at least as tightly as `power`. -/
  | formula (power : Nat) (f : Formula)
  /-- A proposition, a parenthesis or a negation. -/
  | operand (f : Formula)
  /-- What joins `left`, which has been read already, into `f`. -/
  | climb (power : Nat) (left f : Formula)

/-- Nothing in front of the words binds a formula before them at a given power. -/
def Settled (power : Nat) (ws : List Word) : Prop :=
  ∀ w ∈ ws.head?, w.text = ")" ∨ ∃ op, Connective.ofWord? w.text = some op ∧ op.power < power

/-- The words begin with a part, and `rest` follows it. -/
inductive Derives : Part → (ws rest : List Word) → Prop
  | formula {power : Nat} {first f : Formula} {ws mid rest : List Word} :
    Derives (.operand first) ws mid → Derives (.climb power first f) mid rest →
    Derives (.formula power f) ws rest
  | prop {w : Word} {rest : List Word} :
    w.text ∉ reserved → Derives (.operand (prop w.text)) (w :: rest) rest
  | paren {o c : Word} {inner : Formula} {ws rest : List Word} :
    o.text = "(" → Derives (.formula 0 inner) ws (c :: rest) → c.text = ")" →
    Derives (.operand (paren inner)) (o :: ws) rest
  | not {w : Word} {operand : Formula} {ws rest : List Word} :
    w.text = notWord → Derives (.formula notPower operand) ws rest →
    Derives (.operand (not operand)) (w :: ws) rest
  | connective {power : Nat} {op : Connective} {left right f : Formula} {w : Word}
      {ws mid rest : List Word} :
    Connective.ofWord? w.text = some op → power ≤ op.power →
    Derives (.formula (op.power + 1) right) ws mid →
    Derives (.climb power (binary op left right) f) mid rest →
    Derives (.climb power left f) (w :: ws) rest
  | settled {power : Nat} {left : Formula} {ws : List Word} :
    Settled power ws → Derives (.climb power left left) ws ws

/-! ## Words of operators -/

theorem ofWord?_eq_some {s : String} {op : Connective} :
    Connective.ofWord? s = some op ↔ s = op.word := by
  constructor
  · intro h
    simpa [eq_comm] using List.find?_some h
  · rintro rfl
    cases op <;> rfl

theorem mem_operatorWords {s : String} :
    s ∈ operatorWords ↔ s = notWord ∨ ∃ op, Connective.ofWord? s = some op := by
  simp only [operatorWords, List.mem_cons, List.mem_map, ofWord?_eq_some]
  refine or_congr_right ⟨?_, ?_⟩
  · rintro ⟨op, -, rfl⟩
    exact ⟨op, rfl⟩
  · rintro ⟨op, rfl⟩
    exact ⟨op, by cases op <;> decide, rfl⟩

theorem not_mem_reserved {s : String} : s ∉ reserved ↔
    s ≠ "(" ∧ s ≠ ")" ∧ s ≠ notWord ∧ Connective.ofWord? s = none := by
  simp only [reserved, List.mem_cons, mem_operatorWords, not_or, not_exists, ne_eq,
    Option.eq_none_iff_forall_ne_some]

theorem IsWord.ne_paren {s : String} (h : IsWord s.toList) : s ≠ "(" ∧ s ≠ ")" := by
  generalize hs : s.toList = cs at h
  cases h with
  | @cons c cs hstart _ =>
    have hne := ne_paren_of_startsWord hstart
    constructor <;> rintro rfl
    · exact hne.1 (List.cons.inj hs).1.symm
    · exact hne.2 (List.cons.inj hs).1.symm

/-- The propositions among the words and parentheses are those that the reader takes for one. -/
theorem IsPiece.isProposition_iff {s : String} (h : IsPiece s) :
    IsProposition s ↔ s ∉ reserved := by
  rw [reserved, List.mem_cons, List.mem_cons, not_or, not_or]
  constructor
  · intro hs
    exact ⟨hs.isWord.ne_paren.1, hs.isWord.ne_paren.2, hs.not_operator⟩
  · rintro ⟨hopen, hclose, hoperator⟩
    exact ⟨(h.resolve_left hopen).resolve_left hclose, hoperator⟩

theorem power_lt_notPower (op : Connective) : op.power + 1 < notPower := by
  cases op <;> decide

theorem Settled.mono {power power' : Nat} {ws : List Word} (h : Settled power ws)
    (hle : power ≤ power') : Settled power' ws := fun w hw ↦
  (h w hw).imp_right fun ⟨op, hop, hlt⟩ ↦ ⟨op, hop, Nat.lt_of_lt_of_le hlt hle⟩

/-! ## Fuel -/

/-- Fuel that suffices for reading a part of some words. -/
def Part.fuel (part : Part) (ws : List Word) : Nat :=
  match part with
  | .formula .. => 2 * ws.length + 2
  | .operand _ => 2 * ws.length + 1
  | .climb .. => 2 * ws.length + 1

/-- The reader answers a part, run on some fuel. -/
def Part.ReadAs (stop fuel : Nat) (part : Part) (ws rest : List Word) : Prop :=
  match part with
  | .formula power f => Formula.formula stop fuel power ws = .ok (f, rest)
  | .operand f => Formula.operand stop fuel ws = .ok (f, rest)
  | .climb power left f => Formula.climb stop fuel power left ws = .ok (f, rest)

/-- No part is read without fuel. -/
theorem Part.exists_succ_of_fuel_le {part : Part} {ws : List Word} {fuel : Nat}
    (h : part.fuel ws ≤ fuel) : ∃ n, fuel = n + 1 ∧ part.fuel ws ≤ n + 1 := by
  have hpos : 0 < part.fuel ws := by cases part <;> simp [Part.fuel]
  exact ⟨fuel - 1, by omega, by omega⟩

theorem Derives.suffix {part : Part} {ws rest : List Word} (h : Derives part ws rest) :
    rest <:+ ws := by
  induction h with
  | formula _ _ ih₁ ih₂ => exact ih₂.trans ih₁
  | prop => exact List.suffix_cons _ _
  | paren _ _ _ ih => exact (List.suffix_cons _ _).trans (ih.trans (List.suffix_cons _ _))
  | not _ _ ih => exact ih.trans (List.suffix_cons _ _)
  | connective _ _ _ _ ih₁ ih₂ => exact ih₂.trans (ih₁.trans (List.suffix_cons _ _))
  | settled => exact List.suffix_refl _

/-- An operand takes at least one word. -/
theorem Derives.length_lt_of_operand {f : Formula} {ws rest : List Word}
    (h : Derives (.operand f) ws rest) : rest.length < ws.length := by
  cases h with
  | prop => simp
  | paren _ h | not _ h =>
    have := h.suffix.length_le
    simp only [List.length_cons] at this ⊢
    omega

/-! ## The reader answers what is derived -/

section Reader

variable {stop : Nat}

theorem ofWord?_ne {s : String} {op : Connective} (h : Connective.ofWord? s = some op) :
    s ≠ ")" ∧ s ≠ notWord := by
  rw [ofWord?_eq_some] at h
  subst h
  cases op <;> decide

/-- A settled climb is over. -/
theorem Settled.climb {power fuel : Nat} {left : Formula} {ws : List Word} (h : Settled power ws) :
    Formula.climb stop (fuel + 1) power left ws = .ok (left, ws) := by
  cases ws with
  | nil => rw [Formula.climb]; simp
  | cons w ws =>
    rw [Formula.climb]
    rcases h w rfl with hclose | ⟨op, hop, hlt⟩
    · simp [hclose]
    · simp [ofWord?_ne hop, hop, hlt]

/-- What is derived is what the reader answers, run on enough fuel. -/
theorem Derives.readAs {part : Part} {ws rest : List Word} (h : Derives part ws rest) :
    ∀ fuel : Nat, part.fuel ws ≤ fuel → part.ReadAs stop fuel ws rest := by
  induction h with
  | formula h₁ _ ih₁ ih₂ =>
    intro fuel hf
    obtain ⟨fuel, rfl, hf⟩ := Part.exists_succ_of_fuel_le hf
    have hlen := h₁.length_lt_of_operand
    simp only [Part.fuel] at hf ih₁ ih₂
    have e₁ := ih₁ fuel (by omega)
    have e₂ := ih₂ fuel (by omega)
    simp only [Part.ReadAs] at e₁ e₂ ⊢
    simp [Formula.formula, e₁, e₂]
  | prop hword =>
    intro fuel hf
    obtain ⟨fuel, rfl, hf⟩ := Part.exists_succ_of_fuel_le hf
    obtain ⟨hopen, hclose, hnot, hnone⟩ := not_mem_reserved.mp hword
    simp [Part.ReadAs, Formula.operand, hopen, hclose, hnot, hnone]
  | @paren o c inner ws rest hopen h hclose ih =>
    intro fuel hf
    obtain ⟨fuel, rfl, hf⟩ := Part.exists_succ_of_fuel_le hf
    simp only [Part.fuel, List.length_cons] at hf ih
    have e := ih fuel (by omega)
    obtain ⟨text, column⟩ := c
    obtain rfl : text = ")" := hclose
    simp only [Part.ReadAs] at e ⊢
    simp [Formula.operand, hopen, e]
  | not hnot h ih =>
    intro fuel hf
    obtain ⟨fuel, rfl, hf⟩ := Part.exists_succ_of_fuel_le hf
    simp only [Part.fuel, List.length_cons] at hf ih
    have e := ih fuel (by omega)
    simp only [Part.ReadAs] at e ⊢
    simp [Formula.operand, hnot, notWord, e]
  | connective hop hle h₁ _ ih₁ ih₂ =>
    intro fuel hf
    obtain ⟨fuel, rfl, hf⟩ := Part.exists_succ_of_fuel_le hf
    have hlen := h₁.suffix.length_le
    simp only [Part.fuel, List.length_cons] at hf ih₁ ih₂
    have e₁ := ih₁ fuel (by omega)
    have e₂ := ih₂ fuel (by omega)
    simp only [Part.ReadAs] at e₁ e₂ ⊢
    simp [Formula.climb, ofWord?_ne hop, hop, Nat.not_lt.mpr hle, e₁, e₂]
  | settled hs =>
    intro fuel hf
    obtain ⟨fuel, rfl, hf⟩ := Part.exists_succ_of_fuel_le hf
    exact hs.climb

/-! ## What the reader answers is derived -/

section

variable {fuel : Nat}
  (ih : ∀ (part : Part) {ws rest : List Word}, part.fuel ws ≤ fuel →
    part.ReadAs stop fuel ws rest → Derives part ws rest)
include ih

/-- One unit of fuel more for an operand. -/
theorem derives_operand {f : Formula} {ws rest : List Word}
    (hf : (Part.operand f).fuel ws ≤ fuel + 1)
    (h : (Part.operand f).ReadAs stop (fuel + 1) ws rest) : Derives (.operand f) ws rest := by
  cases ws with
  | nil => simp [Part.ReadAs, Formula.operand] at h
  | cons w ws =>
    simp only [Part.ReadAs, Formula.operand] at h
    simp only [Part.fuel, List.length_cons] at hf
    split at h
    · next hopen =>
      obtain ⟨⟨inner, mid⟩, h₁, h⟩ := bind_eq_ok.mp h
      dsimp only at h
      split at h
      · obtain ⟨rfl, rfl⟩ := by simpa using h
        exact .paren hopen (ih (.formula 0 inner) (by simp only [Part.fuel]; omega) h₁) rfl
      · simp at h
    next hopen =>
    split at h
    · next hnot =>
      obtain ⟨⟨inner, mid⟩, h₁, h⟩ := bind_eq_ok.mp h
      obtain ⟨rfl, rfl⟩ := by simpa using h
      exact .not hnot (ih (.formula notPower inner) (by simp only [Part.fuel]; omega) h₁)
    next hnot =>
    split at h
    · simp at h
    · next hword =>
      obtain ⟨rfl, rfl⟩ := by simpa using h
      simp only [Bool.or_eq_true, decide_eq_true_eq, not_or, Bool.not_eq_true,
        Option.isSome_eq_false_iff, Option.isNone_iff_eq_none] at hword
      exact .prop (not_mem_reserved.mpr ⟨hopen, hword.1, hnot, hword.2⟩)

/-- One unit of fuel more behind a left operand. -/
theorem derives_climb {power : Nat} {left f : Formula} {ws rest : List Word}
    (hf : (Part.climb power left f).fuel ws ≤ fuel + 1)
    (h : (Part.climb power left f).ReadAs stop (fuel + 1) ws rest) :
    Derives (.climb power left f) ws rest := by
  cases ws with
  | nil =>
    simp only [Part.ReadAs, Formula.climb] at h
    obtain ⟨rfl, rfl⟩ := by simpa using h
    exact .settled (by simp [Settled])
  | cons w ws =>
    simp only [Part.ReadAs, Formula.climb] at h
    simp only [Part.fuel, List.length_cons] at hf
    split at h
    · next hclose =>
      obtain ⟨rfl, rfl⟩ := by simpa using h
      exact .settled (by simp [Settled, hclose])
    split at h
    · simp at h
    split at h
    · simp at h
    · next op hop =>
      split at h
      · next hlt =>
        obtain ⟨rfl, rfl⟩ := by simpa using h
        exact .settled (by simp [Settled, hop, hlt])
      · next hle =>
        obtain ⟨⟨right, mid⟩, h₁, h₂⟩ := bind_eq_ok.mp h
        have d₁ := ih (.formula (op.power + 1) right) (by simp only [Part.fuel]; omega) h₁
        have hlen := d₁.suffix.length_le
        exact .connective hop (Nat.not_lt.mp hle) d₁
          (ih (.climb power (binary op left right) f) (by simp only [Part.fuel]; omega) h₂)

/-- One unit of fuel more: what the reader answers with it is derived, if all it answers with the
fuel before is. -/
theorem derives_step {part : Part} {ws rest : List Word} (hf : part.fuel ws ≤ fuel + 1)
    (h : part.ReadAs stop (fuel + 1) ws rest) : Derives part ws rest := by
  cases part with
  | formula power f =>
    simp only [Part.ReadAs, Formula.formula] at h
    simp only [Part.fuel] at hf
    obtain ⟨⟨first, mid⟩, h₁, h₂⟩ := bind_eq_ok.mp h
    have d₁ := ih (.operand first) (by simp only [Part.fuel]; omega) h₁
    have hlen := d₁.length_lt_of_operand
    exact .formula d₁ (ih (.climb power first f) (by simp only [Part.fuel]; omega) h₂)
  | operand f => exact derives_operand ih hf h
  | climb power left f => exact derives_climb ih hf h

end

/-- **The reader derives.**  On enough fuel it answers exactly what is derived. -/
theorem readAs_iff_derives {fuel : Nat} (part : Part) {ws rest : List Word}
    (hf : part.fuel ws ≤ fuel) : part.ReadAs stop fuel ws rest ↔ Derives part ws rest := by
  refine ⟨fun h ↦ ?_, fun h ↦ h.readAs fuel hf⟩
  induction fuel generalizing part ws rest with
  | zero =>
    obtain ⟨n, hn, -⟩ := Part.exists_succ_of_fuel_le hf
    omega
  | succ fuel ih => exact derives_step ih hf h

end Reader

/-! ## What is derived is ordered -/

/-- What a part says of the words it takes and of those it leaves over. -/
def Part.Sound (part : Part) (ws rest : List Word) : Prop :=
  match part with
  | .formula power f => ws.map Word.text = f.texts ++ rest.map Word.text ∧ f.Ordered ∧
    f.Binds power ∧ (∀ name ∈ f.names, name ∉ reserved) ∧ Settled power rest
  | .operand f => ws.map Word.text = f.texts ++ rest.map Word.text ∧ f.Ordered ∧
    f.outer? = none ∧ ∀ name ∈ f.names, name ∉ reserved
  | .climb power left f => left.Ordered → left.Binds power →
    (∀ name ∈ left.names, name ∉ reserved) → (∀ op ∈ left.outer?, Settled (op.power + 1) ws) →
    left.texts ++ ws.map Word.text = f.texts ++ rest.map Word.text ∧ f.Ordered ∧
    f.Binds power ∧ (∀ name ∈ f.names, name ∉ reserved) ∧ Settled power rest

/-- Nothing with a connective on top binds as tightly as `not`. -/
theorem Binds.outer?_eq_none {f : Formula} (h : f.Binds notPower) : f.outer? = none := by
  refine Option.eq_none_iff_forall_ne_some.mpr fun op hop ↦ ?_
  have hle := h op hop
  have hlt := power_lt_notPower op
  omega

theorem binds_of_outer?_eq_none {f : Formula} (h : f.outer? = none) (power : Nat) :
    f.Binds power := by
  simp [Binds, h]

/-- **What is derived is ordered**, and its words are those it is derived from. -/
theorem Derives.sound {part : Part} {ws rest : List Word} (h : Derives part ws rest) :
    part.Sound ws rest := by
  induction h with
  | @formula power first f ws mid rest _ _ ih₁ ih₂ =>
    obtain ⟨hwords, hordered, houter, hnames⟩ := ih₁
    simp only [Part.Sound] at ih₂ ⊢
    rw [hwords]
    exact ih₂ hordered (binds_of_outer?_eq_none houter power) hnames (by simp [houter])
  | prop hword => exact ⟨rfl, trivial, rfl, by simpa [names] using hword⟩
  | paren hopen _ hclose ih =>
    obtain ⟨hwords, hordered, -, hnames, -⟩ := ih
    exact ⟨by simp [texts, hopen, hwords, hclose], hordered, rfl, hnames⟩
  | not hnot _ ih =>
    obtain ⟨hwords, hordered, hbinds, hnames, -⟩ := ih
    exact ⟨by simp [texts, hnot, hwords], ⟨hbinds.outer?_eq_none, hordered⟩, rfl, hnames⟩
  | @connective power op left right f w ws mid rest hop hle _ _ ih₁ ih₂ =>
    intro hordered hbinds hnames hsettled
    obtain ⟨hwords, hordered', hbinds', hnames', hsettled'⟩ := ih₁
    -- What stands on the left binds at least as tightly, since it left the connective over.
    have hleft : left.Binds op.power := by
      intro o ho
      rcases hsettled o ho w rfl with hclose | ⟨op', hop', hlt⟩
      · exact absurd hclose (ofWord?_ne hop).1
      · obtain rfl : op = op' := by simpa [hop] using hop'
        omega
    have hjoined : (binary op left right).Binds power := by
      rintro o ⟨rfl⟩
      exact hle
    have htexts : left.texts ++ (w :: ws).map Word.text =
        (binary op left right).texts ++ mid.map Word.text := by
      simp [texts, ofWord?_eq_some.mp hop, hwords]
    rw [htexts]
    refine ih₂ ⟨⟨hleft, hordered⟩, hbinds', hordered'⟩ hjoined ?_ ?_
    · exact fun name hname ↦ (List.mem_append.mp hname).elim (hnames name) (hnames' name)
    · rintro o ⟨rfl⟩
      exact hsettled'
  | settled hs => exact fun hordered hbinds hnames _ ↦ ⟨rfl, hordered, hbinds, hnames, hs⟩

/-! ## What is ordered is derived -/

/-- **What is ordered is derived**, and then joined to what follows.  The induction is on the
formula; on the left of a connective, the climb goes on with the connective. -/
theorem Ordered.derives {f : Formula} (h : f.Ordered)
    (hnames : ∀ name ∈ f.names, name ∉ reserved) :
    ∀ {power : Nat} {ws tail rest : List Word} {g : Formula}, ws.map Word.text = f.texts →
      f.Binds power → Settled notPower tail → (∀ op ∈ f.outer?, Settled (op.power + 1) tail) →
      Derives (.climb power f g) tail rest → Derives (.formula power g) (ws ++ tail) rest := by
  induction f with
  | prop name =>
    intro power ws tail rest g hwords _ _ _ hclimb
    obtain ⟨w, rfl, rfl⟩ := List.map_eq_singleton_iff.mp hwords
    exact .formula (.prop (hnames w.text (by simp [names]))) hclimb
  | paren inner ih =>
    intro power ws tail rest g hwords _ _ _ hclimb
    obtain ⟨o, ws, rfl, hopen, hwords⟩ := List.map_eq_cons_iff.mp hwords
    obtain ⟨ws, closing, rfl, hinner, hclosing⟩ := List.map_eq_append_iff.mp hwords
    obtain ⟨c, rfl, hclose⟩ := List.map_eq_singleton_iff.mp hclosing
    have hsettled (power : Nat) : Settled power (c :: tail) := by simp [Settled, hclose]
    rw [List.cons_append, List.append_assoc]
    refine .formula (.paren hopen ?_ hclose) hclimb
    exact ih h hnames hinner (fun _ _ ↦ Nat.zero_le _) (hsettled _) (fun _ _ ↦ hsettled _)
      (.settled (hsettled 0))
  | not operand ih =>
    intro power ws tail rest g hwords _ hsettled _ hclimb
    obtain ⟨w, ws, rfl, hnot, hwords⟩ := List.map_eq_cons_iff.mp hwords
    refine .formula (.not hnot ?_) hclimb
    exact ih h.2 hnames hwords (binds_of_outer?_eq_none h.1 _) hsettled (by simp [h.1])
      (.settled hsettled)
  | binary op left right ihleft ihright =>
    intro power ws tail rest g hwords hbinds hsettled hends hclimb
    obtain ⟨⟨hleft, hordered⟩, hright, hordered'⟩ := h
    obtain ⟨wl, ws, rfl, hwl, hws⟩ := List.map_eq_append_iff.mp hwords
    obtain ⟨w, wr, rfl, hw, hwr⟩ := List.map_eq_cons_iff.mp hws
    have hop : Connective.ofWord? w.text = some op := ofWord?_eq_some.mpr hw
    have hle : power ≤ op.power := hbinds op rfl
    have hend : Settled (op.power + 1) tail := hends op rfl
    have hsettledw {power : Nat} (hlt : op.power < power) (ws : List Word) :
        Settled power (w :: ws) := by simp [Settled, hop, hlt]
    have hrest : Derives (.formula (op.power + 1) right) (wr ++ tail) tail :=
      ihright hordered' (fun name hname ↦ hnames name (List.mem_append_right _ hname)) hwr hright
        hsettled (fun o ho ↦ hend.mono (Nat.le_succ_of_le (hright o ho))) (.settled hend)
    rw [List.append_assoc]
    exact ihleft hordered (fun name hname ↦ hnames name (List.mem_append_left _ hname)) hwl
      (fun o ho ↦ Nat.le_trans hle (hleft o ho))
      (hsettledw (by have := power_lt_notPower op; omega) _)
      (fun o ho ↦ hsettledw (Nat.lt_succ_of_le (hleft o ho)) _)
      (.connective hop hle hrest hclimb)

/-! ## Texts -/

theorem IsPiece.of_splits {cs : List Char} {ls : List String} (h : Splits cs ls) :
    ∀ l ∈ ls, IsPiece l := by
  induction h with
  | nil => simp
  | blank _ _ ih => exact ih
  | paren hparen _ ih =>
    refine List.forall_mem_cons.mpr ⟨?_, ih⟩
    rcases hparen with rfl | rfl
    · exact .inl rfl
    · exact .inr (.inl rfl)
  | word hword _ _ ih =>
    exact List.forall_mem_cons.mpr ⟨.inr (.inr (by rwa [String.toList_ofList])), ih⟩

theorem names_subset_texts (f : Formula) : f.names ⊆ f.texts := by
  induction f with
  | prop name => exact List.Subset.refl _
  | paren inner ih => exact fun name hname ↦ by simp [texts, ih hname]
  | not operand ih => exact fun name hname ↦ List.mem_cons_of_mem _ (ih hname)
  | binary op left right ihleft ihright =>
    intro name hname
    rcases List.mem_append.mp hname with h | h
    · exact List.mem_append_left _ (ihleft h)
    · exact List.mem_append_right _ (List.mem_cons_of_mem _ (ihright h))

/-- A text says a formula: it is ordered, and the text splits into its words. -/
structure Says (text : String) (f : Formula) : Prop where
  ordered : f.Ordered
  isProposition : ∀ name ∈ f.names, IsProposition name
  splits : Splits text.toList f.texts

/-- All words of a text are read as a formula exactly if the text says it. -/
theorem formula_eq_ok (stop : Nat) {text : String} {ws : List Word} {f : Formula}
    (hws : words text = .ok ws) :
    Formula.formula stop (fuelFor ws) 0 ws = .ok (f, []) ↔ Says text f := by
  have hread : Part.ReadAs stop (fuelFor ws) (.formula 0 f) ws [] ↔ Derives (.formula 0 f) ws [] :=
    readAs_iff_derives _ (Nat.le_refl _)
  have hsplits : Splits text.toList (ws.map Word.text) := exists_words_iff.mp ⟨ws, hws, rfl⟩
  refine hread.trans ⟨fun h ↦ ?_, fun h ↦ ?_⟩
  · obtain ⟨hwords, hordered, -, hnames, -⟩ := h.sound
    rw [List.map_nil, List.append_nil] at hwords
    rw [hwords] at hsplits
    refine ⟨hordered, fun name hname ↦ ?_, hsplits⟩
    have hpiece := IsPiece.of_splits hsplits name (names_subset_texts f hname)
    exact hpiece.isProposition_iff.mpr (hnames name hname)
  · obtain ⟨ws', hws', hmap⟩ := exists_words_iff.mpr h.splits
    obtain rfl : ws' = ws := by simpa [hws] using hws'.symm
    have hpieces := IsPiece.of_splits h.splits
    have hnames : ∀ name ∈ f.names, name ∉ reserved := fun name hname ↦
      (hpieces name (names_subset_texts f hname)).isProposition_iff.mp (h.isProposition name hname)
    have hend (power : Nat) : Settled power [] := by simp [Settled]
    simpa using h.ordered.derives hnames hmap (fun _ _ ↦ Nat.zero_le _) (hend _) (fun _ _ ↦ hend _)
      (.settled (hend 0))

/-- A text is read as a formula exactly if it says it. -/
theorem ofText_eq_ok_iff {text : String} {f : Formula} : ofText text = .ok f ↔ Says text f := by
  cases hws : words text with
  | error e =>
    have hnone : ¬Says text f := fun h ↦ by
      obtain ⟨ws, hws', -⟩ := exists_words_iff.mpr h.splits
      simp [hws] at hws'
    simp [ofText, hws, hnone]
  | ok ws =>
    rw [← formula_eq_ok text.length hws, ofText, hws, ok_bind]
    constructor
    · intro h
      obtain ⟨⟨g, rest⟩, hg, h⟩ := bind_eq_ok.mp h
      cases rest with
      | nil =>
        obtain rfl := Except.ok.inj h
        exact hg
      | cons w rest => simp at h
    · intro h
      rw [h]
      rfl

/-! ## Texts that are declined -/

/-- A step that stops stops with an error of syntax. -/
def Declines {β : Type} (x : Except CalcError β) : Prop :=
  ∀ e, x = .error e → e.kind = .parse

theorem Declines.ok {β : Type} (b : β) : Declines (.ok b) :=
  fun _ h ↦ nomatch h

theorem Declines.syntaxAt {β : Type} (fault : SyntaxFault) (column : Nat) :
    Declines (.error (.syntaxAt fault column) : Except CalcError β) := by
  rintro e ⟨⟩
  rfl

theorem Declines.bind {β γ : Type} {x : Except CalcError β} {k : β → Except CalcError γ}
    (hx : Declines x) (hk : ∀ b, Declines (k b)) : Declines (x >>= k) := by
  intro e h
  rcases bind_eq_error.mp h with h | ⟨b, -, h⟩
  · exact hx e h
  · exact hk b e h

/-- One unit of fuel more for an operand. -/
theorem operand_declines {stop fuel : Nat}
    (hformula : ∀ power ws, Declines (Formula.formula stop fuel power ws)) (ws : List Word) :
    Declines (Formula.operand stop (fuel + 1) ws) := by
  cases ws with
  | nil =>
    rw [Formula.operand]
    exact .syntaxAt _ _
  | cons w ws =>
    rw [Formula.operand]
    split
    · refine (hformula _ _).bind fun _ ↦ ?_
      dsimp only
      split
      · exact .ok _
      · exact .syntaxAt _ _
    split
    · exact (hformula _ _).bind fun _ ↦ .ok _
    split
    · exact .syntaxAt _ _
    · exact .ok _

/-- One unit of fuel more behind a left operand. -/
theorem climb_declines {stop fuel : Nat}
    (hformula : ∀ power ws, Declines (Formula.formula stop fuel power ws))
    (hclimb : ∀ power left ws, Declines (Formula.climb stop fuel power left ws))
    (power : Nat) (left : Formula) (ws : List Word) :
    Declines (Formula.climb stop (fuel + 1) power left ws) := by
  cases ws with
  | nil =>
    rw [Formula.climb]
    · exact .ok _
    · simp
  | cons w ws =>
    rw [Formula.climb]
    split
    · exact .ok _
    split
    · exact .syntaxAt _ _
    split
    · exact .syntaxAt _ _
    split
    · exact .ok _
    · exact (hformula _ _).bind fun _ ↦ hclimb _ _ _

/-- All parts of the reader decline with errors of syntax. -/
theorem reader_declines (stop fuel : Nat) :
    (∀ power ws, Declines (Formula.formula stop fuel power ws)) ∧
    (∀ ws, Declines (Formula.operand stop fuel ws)) ∧
    ∀ power left ws, Declines (Formula.climb stop fuel power left ws) := by
  induction fuel with
  | zero =>
    refine ⟨fun power ws ↦ ?_, fun ws ↦ ?_, fun power left ws ↦ ?_⟩
    · rw [Formula.formula]
      exact .syntaxAt _ _
    · cases ws <;> rw [Formula.operand] <;> exact .syntaxAt _ _
    · rw [Formula.climb]
      exact .ok _
  | succ fuel ih =>
    obtain ⟨hformula, hoperand, hclimb⟩ := ih
    refine ⟨fun power ws ↦ ?_, operand_declines hformula, climb_declines hformula hclimb⟩
    rw [Formula.formula]
    exact (hoperand ws).bind fun _ ↦ hclimb _ _ _

/-- A text that is declined is declined with an error of syntax. -/
theorem ofText_declines (text : String) : Declines (ofText text) := by
  refine .bind (fun e h ↦ kind_of_scan h) fun ws ↦ ?_
  refine ((reader_declines _ _).1 _ _).bind fun (f, rest) ↦ ?_
  cases rest with
  | nil => exact .ok _
  | cons w rest => exact .syntaxAt _ _

/-! ## What reading comes to -/

theorem isPiece_of_mem_texts {f : Formula} (h : ∀ name ∈ f.names, IsProposition name) :
    ∀ l ∈ f.texts, IsPiece l := by
  induction f with
  | prop name => exact fun l hl ↦ .inr (.inr (h l hl).isWord)
  | paren inner ih =>
    intro l hl
    simp only [texts, List.mem_cons, List.mem_append, List.not_mem_nil, or_false] at hl
    rcases hl with rfl | hl | rfl
    · exact .inl rfl
    · exact ih h l hl
    · exact .inr (.inl rfl)
  | not operand ih =>
    refine List.forall_mem_cons.mpr ⟨.inr (.inr ?_), ih h⟩
    exact .cons (by decide) (List.all_eq_true.mp (by decide))
  | binary op left right ihleft ihright =>
    obtain ⟨hleft, hright⟩ := List.forall_mem_append.mp h
    refine List.forall_mem_append.mpr ⟨ihleft hleft, List.forall_mem_cons.mpr ⟨?_, ihright hright⟩⟩
    cases op <;> exact .inr (.inr (.cons (by decide) (List.all_eq_true.mp (by decide))))

/-- **The texts of formulas.**  A text is read as a formula exactly if the formula is ordered and
the text splits into its words.  So an ordered formula is read from its words with blanks between
them, and a text that says no formula is declined with an error of syntax. -/
theorem ofText_precedence (text : String) :
    (∀ f, ofText text = .ok f ↔ Says text f) ∧
    (∀ f : Formula, f.Ordered → (∀ name ∈ f.names, IsProposition name) →
      ofText (" ".intercalate f.texts) = .ok f) ∧
    ((∀ f, ¬Says text f) → ∃ e, ofText text = .error e ∧ e.kind = .parse) := by
  refine ⟨fun f ↦ ofText_eq_ok_iff, fun f hordered hnames ↦ ?_, fun hnone ↦ ?_⟩
  · exact ofText_eq_ok_iff.mpr
      ⟨hordered, hnames, splits_intercalate (isPiece_of_mem_texts hnames)⟩
  · cases h : ofText text with
    | ok f => exact absurd (ofText_eq_ok_iff.mp h) (hnone f)
    | error e => exact ⟨e, rfl, ofText_declines text e h⟩

/-- A negation on the left of an implication is read from its words, with blanks or without; a
negation behind a formula is declined. -/
theorem ofText_precedence_implication :
    ∃ f : Formula, f = binary .implies
        (not (paren (binary .or (prop "p") (binary .and (prop "q") (prop "r"))))) (prop "s") ∧
      f.Ordered ∧ (∀ name ∈ f.names, IsProposition name) ∧
      ofText "not(p or q and r)implies s" = .ok f ∧
      ofText "not ( p or q and r ) implies s" = .ok f ∧
      (∀ g, ¬Says "p not q" g) ∧ ∃ e, ofText "p not q" = .error e ∧ e.kind = .parse := by
  let f : Formula := binary .implies
    (not (paren (binary .or (prop "p") (binary .and (prop "q") (prop "r"))))) (prop "s")
  have hordered : f.Ordered := by decide
  have hword (c : Char) (hc : startsWord c = true) (hname : String.ofList [c] ∉ operatorWords) :
      IsProposition (String.ofList [c]) := by
    refine ⟨?_, hname⟩
    rw [String.toList_ofList]
    exact .cons hc (by simp)
  have hnames : ∀ name ∈ f.names, IsProposition name := by
    intro name hname
    have hcases : name = "p" ∨ name = "q" ∨ name = "r" ∨ name = "s" := by
      simpa [f, names, or_assoc] using hname
    rcases hcases with rfl | rfl | rfl | rfl
    · exact hword 'p' (by decide) (by decide)
    · exact hword 'q' (by decide) (by decide)
    · exact hword 'r' (by decide) (by decide)
    · exact hword 's' (by decide) (by decide)
  have hsays : Says "not(p or q and r)implies s" f :=
    ⟨hordered, hnames, exists_words_iff.mp ⟨_, rfl, rfl⟩⟩
  have hdeclined : ofText "p not q" = .error (.syntaxAt (.notBinary "not") 2) := by
    have hwords : words "p not q" = .ok [⟨"p", 0⟩, ⟨"not", 2⟩, ⟨"q", 6⟩] := rfl
    have hfirst : operand 7 7 [⟨"p", 0⟩, ⟨"not", 2⟩, ⟨"q", 6⟩] =
        .ok (prop "p", [⟨"not", 2⟩, ⟨"q", 6⟩]) := by
      rw [operand]
      rfl
    have hnext : climb 7 7 0 (prop "p") [⟨"not", 2⟩, ⟨"q", 6⟩] =
        .error (.syntaxAt (.notBinary "not") 2) := by
      rw [climb]
      rfl
    have hformula : formula 7 8 0 [⟨"p", 0⟩, ⟨"not", 2⟩, ⟨"q", 6⟩] =
        .error (.syntaxAt (.notBinary "not") 2) := by
      rw [formula, hfirst, ok_bind]
      exact hnext
    rw [ofText, hwords, ok_bind]
    change (formula 7 8 0 _ >>= _) = _
    rw [hformula, error_bind]
  have hnone : ∀ g, ¬Says "p not q" g := fun g hg ↦ by
    have hok := ((ofText_precedence "p not q").1 g).mpr hg
    simp [hdeclined] at hok
  exact ⟨f, rfl, hordered, hnames, ((ofText_precedence _).1 f).mpr hsays,
    (ofText_precedence "").2.1 f hordered hnames, hnone, (ofText_precedence "p not q").2.2 hnone⟩

end Formula
end Mensura
