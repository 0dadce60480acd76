import Mensura.Proofs.UnitExpr.Label

/-!
# Reading labels of units

A label has no parentheses.  It is a first factor, a name or a fraction, and steps behind it: an
exponent of the factor before, or one more factor.  So the label of `(m s)^2` is that of `m s^2`,
and that of `m (s A)` is that of `m s A`.

* `shown` is the unit as its label shows it: all factors in one row, and every power one of a single
  factor.
* `Worded.read`: what a label shows is read from it in one way, also where something follows it in a
  formula.
* `label_eq_iff`: two units have one label exactly if they show the same, up to how a mu is written.
* `Chain.reads`: the units written behind values are as their labels show them, so their labels tell
  them.
-/

set_option autoImplicit false

namespace Mensura
namespace UnitExpr

open Text Typeset

/-! ## What a label shows -/

/-- A power as its label shows it: of the last factor alone. -/
def raised : UnitExpr → Int → UnitExpr
  | mul u v, n => mul u (pow v n)
  | u, n => pow u n

/-- A product as its label shows it: all factors in one row. -/
def beside (u : UnitExpr) : UnitExpr → UnitExpr
  | mul v w => mul (beside u v) w
  | v => mul u v

/-- A unit as its label shows it.  There are no parentheses in a label, so it does not show how
products are put together, nor that a power is one of a product. -/
def shown : UnitExpr → UnitExpr
  | name text => name text
  | pow u n => raised u.shown n
  | mul u v => beside u.shown v.shown
  | div u v => div u.shown v.shown

theorem label_raised (u : UnitExpr) (n : Int) : label (raised u n) = label (pow u n) := by
  cases u <;> simp [raised, label, String.append_assoc]

theorem label_beside (u v : UnitExpr) : label (beside u v) = label (mul u v) := by
  induction v with
  | mul v w ihv _ =>
    rw [beside, label, ihv]
    simp [label, String.append_assoc]
  | _ => rfl

/-- What a label shows has the same label. -/
theorem label_shown (u : UnitExpr) : label u.shown = label u := by
  induction u with
  | name text => rfl
  | pow u n ih => rw [shown, label_raised, label, label, ih]
  | mul u v ihu ihv => rw [shown, label_beside, label, label, ihu, ihv]
  | div u v ihu ihv => rw [shown, label, label, ihu, ihv]

/-! ## From left to right -/

/-- The first factor of a label: a name or a fraction. -/
def first : UnitExpr → UnitExpr
  | name text => name text
  | pow u _ => u.first
  | mul u _ => u.first
  | div u v => div u v

/-- How a label goes on behind a factor: with an exponent of it, or with another factor. -/
inductive Step
  | raise (n : Int)
  | times (u : UnitExpr)

/-- The steps of a label behind its first factor. -/
def steps : UnitExpr → List Step
  | name _ => []
  | pow u n => u.steps ++ [.raise n]
  | mul u v => u.steps ++ .times v.first :: v.steps
  | div _ _ => []

namespace Step

/-- A step as it stands in a label. -/
def label : Step → List Char
  | raise n => exponentLabel n
  | times u => ' ' :: '\\' :: ' ' :: u.label.toList

/-- The unit that is shown one step further. -/
def extend (u : UnitExpr) : Step → UnitExpr
  | raise n => raised u n
  | times v => mul u v

/-- The step with another factor. -/
def map (f : UnitExpr → UnitExpr) : Step → Step
  | raise n => raise n
  | times u => times (f u)

end Step

theorem label_toList (u : UnitExpr) :
    (label u).toList = (label u.first).toList ++ u.steps.flatMap Step.label := by
  induction u with
  | name text => simp [first, steps]
  | pow u n ih => simp [label_pow_toList, first, steps, ih, Step.label]
  | mul u v ihu ihv => simp [label, first, steps, ihu, ihv, Step.label]
  | div u v => simp [first, steps]

theorem beside_extend (u v : UnitExpr) (s : Step) :
    beside u (s.extend v) = s.extend (beside u v) := by
  cases s with
  | raise n => cases v <;> rfl
  | times w => rfl

theorem first_cases (u : UnitExpr) :
    (∃ text, u.first = name text) ∨ ∃ v w, u.first = div v w := by
  induction u with
  | name text => exact .inl ⟨text, rfl⟩
  | pow u n ih => exact ih
  | mul u v ihu _ => exact ihu
  | div u v => exact .inr ⟨u, v, rfl⟩

/-- What a label shows is put together from left to right. -/
theorem shown_eq_foldl (u : UnitExpr) :
    u.shown = (u.steps.map (Step.map shown)).foldl Step.extend u.first.shown := by
  induction u with
  | name text => rfl
  | pow u n ih => simp [shown, first, steps, ← ih, Step.map, Step.extend]
  | mul u v ihu ihv =>
    have hbeside (w : UnitExpr) (ss : List Step) :
        beside u.shown (ss.foldl Step.extend w) = ss.foldl Step.extend (beside u.shown w) := by
      induction ss generalizing w with
      | nil => rfl
      | cons s ss ih => rw [List.foldl_cons, List.foldl_cons, ih, beside_extend]
    have hfirst : beside u.shown v.first.shown = mul u.shown v.first.shown := by
      rcases v.first_cases with ⟨text, h⟩ | ⟨a, b, h⟩ <;> rw [h] <;> rfl
    rw [shown, ihv, hbeside, hfirst, steps, List.map_append, List.map_cons, List.foldl_append,
      List.foldl_cons, first, ← ihu]
    rfl
  | div u v => rfl

theorem respelled_extend (u : UnitExpr) (s : Step) :
    (s.extend u).respelled = (s.map respelled).extend u.respelled := by
  cases s with
  | raise n => cases u <;> rfl
  | times v => rfl

/-- So are the spellings of what it shows. -/
theorem respelled_shown (u : UnitExpr) : u.shown.respelled =
    (u.steps.map (Step.map (respelled ∘ shown))).foldl Step.extend u.first.shown.respelled := by
  rw [shown_eq_foldl]
  generalize u.first.shown = w
  induction u.steps generalizing w with
  | nil => rfl
  | cons s ss ih =>
    rw [List.map_cons, List.foldl_cons, ih, respelled_extend, List.map_cons, List.foldl_cons]
    cases s <;> rfl

/-! ## Reading -/

theorem Ends.nameStops {t : List Char} (h : Ends t) : Stops nameStops t :=
  h.stops.mono (List.subset_append_left _ _)

theorem stops_step (a : Step) (s : List Char) : Stops nameStops (a.label ++ s) := by
  cases a with
  | raise n => exact stops_exponentLabel n s
  | times u => exact .inr ⟨[' ', '\\', ' '], by simp [Typeset.nameStops], u.label.toList ++ s, rfl⟩

/-- A formula does not go on as a unit does. -/
theorem Ends.ne_step {s t : List Char} (hs : Ends s) (a : Step) : s ≠ a.label ++ t := by
  cases a with
  | raise n => exact hs.unraised n t
  | times u => exact hs.stops.ne_append (x := [' ', '\\', ' ']) (by decide)

/-- A factor of a label that can be read. -/
inductive Atom : UnitExpr → Prop
  | name {text : String} : IsWord text.toList → Atom (name text)
  | div {u v : UnitExpr} : u.Worded → v.Worded → Atom (div u v)

/-- A factor is read in one way, whatever follows it. -/
def ReadsAtom (u : UnitExpr) : Prop :=
  ∀ {v : UnitExpr} {s t : List Char}, Atom v → Stops nameStops s → Stops nameStops t →
    (label u).toList ++ s = (label v).toList ++ t → u.shown.respelled = v.shown.respelled ∧ s = t

/-- The factor of a step has a property. -/
def Step.Holds (p : UnitExpr → Prop) : Step → Prop
  | raise _ => True
  | times u => p u

theorem Worded.first {u : UnitExpr} (h : u.Worded) : Atom u.first := by
  induction u with
  | name text => exact .name h
  | pow u n ih => exact ih h
  | mul u v ihu _ => exact ihu h.1
  | div u v => exact .div h.1 h.2

theorem Worded.steps {u : UnitExpr} (h : u.Worded) : ∀ a ∈ u.steps, a.Holds Atom := by
  induction u with
  | name text => simp [UnitExpr.steps]
  | pow u n ih =>
    exact List.forall_mem_append.mpr ⟨ih h, List.forall_mem_cons.mpr ⟨trivial, by simp⟩⟩
  | mul u v ihu ihv =>
    exact List.forall_mem_append.mpr ⟨ihu h.1, List.forall_mem_cons.mpr ⟨h.2.first, ihv h.2⟩⟩
  | div u v => simp [UnitExpr.steps]

theorem step_read {a b : Step} {s t : List Char} (ha : a.Holds ReadsAtom) (hb : b.Holds Atom)
    (hs : Stops nameStops s) (ht : Stops nameStops t) (h : a.label ++ s = b.label ++ t) :
    a.map (respelled ∘ shown) = b.map (respelled ∘ shown) ∧ s = t := by
  cases a with
  | raise n =>
    cases b with
    | raise k =>
      obtain ⟨rfl, rfl⟩ := exponentLabel_read h
      exact ⟨rfl, rfl⟩
    | times v => simp [Step.label, exponentLabel] at h
  | times u =>
    cases b with
    | raise k => simp [Step.label, exponentLabel] at h
    | times v =>
      have hlabel : (label u).toList ++ s = (label v).toList ++ t := by
        simpa [Step.label] using h
      obtain ⟨hshown, rfl⟩ := ha hb hs ht hlabel
      exact ⟨congrArg Step.times hshown, rfl⟩

/-- A unit is read in one way if its factors are. -/
theorem read_of_parts {u v : UnitExpr} {s t : List Char}
    (hu : ReadsAtom u.first ∧ ∀ a ∈ u.steps, a.Holds ReadsAtom) (hv : v.Worded) (hs : Ends s)
    (ht : Ends t) (h : (label u).toList ++ s = (label v).toList ++ t) :
    u.shown.respelled = v.shown.respelled ∧ s = t := by
  have hstops {ss : List Step} {s : List Char} (hs : Ends s) :
      Stops nameStops (ss.flatMap Step.label ++ s) := by
    cases ss with
    | nil => exact hs.nameStops
    | cons a ss =>
      rw [List.flatMap_cons, List.append_assoc]
      exact stops_step a _
  rw [label_toList, label_toList v, List.append_assoc, List.append_assoc] at h
  obtain ⟨hfirst, h⟩ := hu.1 hv.first (hstops hs) (hstops ht) h
  obtain ⟨hsteps, rfl⟩ := flatMap_read (g := Step.map (respelled ∘ shown)) step_read
    (fun _ ↦ stops_step _ _) Ends.nameStops (fun _ hs ↦ hs.ne_step _) hu.2 hv.steps hs ht h
  exact ⟨by rw [respelled_shown u, respelled_shown v, hfirst, hsteps], rfl⟩

theorem label_div_toList (u v : UnitExpr) : (label (div u v)).toList =
    "\\frac".toList ++ '{' :: ((label u).toList ++ '}' :: '{' :: ((label v).toList ++ ['}'])) := by
  simp [label]

/-- A name does not begin as a fraction does. -/
theorem label_name_ne_frac {text : String} {s t : List Char} (h : IsWord text.toList) :
    (label (name text)).toList ++ s ≠ "\\frac".toList ++ t := by
  rw [label, nameLabel_toList h]
  obtain ⟨c, n, hn⟩ := List.exists_cons_of_ne_nil h.ne_nil
  obtain ⟨rest, hrest⟩ := exists_spelled_cons c n
  have hc : isWordChar c = true := h.isWordChar c (by simp [hn])
  rw [hn, hrest]
  rcases commandOf_cases hc with ⟨-, hc⟩ | ⟨-, hc⟩ | ⟨-, hslash, hc⟩ <;> simp [hc]
  exact fun h ↦ absurd h hslash

theorem readsAtom_name {text : String} (h : IsWord text.toList) : ReadsAtom (name text) := by
  intro v s t hv hs ht heq
  cases hv with
  | name hv =>
    rw [label, label, nameLabel_toList h, nameLabel_toList hv] at heq
    obtain ⟨hname, rfl⟩ := spelled_read h hv hs ht heq
    exact ⟨by simp only [shown, respelled, hname], rfl⟩
  | div _ _ =>
    rw [label_div_toList, List.append_assoc] at heq
    exact absurd heq (label_name_ne_frac h)

/-- The numerator and the denominator of a fraction stand between braces. -/
theorem readsAtom_div {u v : UnitExpr}
    (hu : ReadsAtom u.first ∧ ∀ a ∈ u.steps, a.Holds ReadsAtom)
    (hv : ReadsAtom v.first ∧ ∀ a ∈ v.steps, a.Holds ReadsAtom) : ReadsAtom (div u v) := by
  intro w s t hw hs ht heq
  cases hw with
  | name hw =>
    rw [label_div_toList, List.append_assoc] at heq
    exact absurd heq.symm (label_name_ne_frac hw)
  | div hu' hv' =>
    simp only [label_div_toList, List.append_assoc, List.append_cancel_left_eq, List.cons_append,
      List.cons.injEq, true_and, List.nil_append] at heq
    obtain ⟨hnum, heq⟩ := read_of_parts hu hu' (ends_brace _) (ends_brace _) heq
    simp only [List.cons.injEq, true_and] at heq
    obtain ⟨hden, heq⟩ := read_of_parts hv hv' (ends_brace _) (ends_brace _) heq
    exact ⟨by simp only [shown, respelled, hnum, hden], (List.cons.inj heq).2⟩

/-- Every factor of a unit is read in one way. -/
theorem Worded.parts {u : UnitExpr} (h : u.Worded) :
    ReadsAtom u.first ∧ ∀ a ∈ u.steps, a.Holds ReadsAtom := by
  induction u with
  | name text => exact ⟨readsAtom_name h, by simp [UnitExpr.steps]⟩
  | pow u n ih =>
    obtain ⟨hfirst, hsteps⟩ := ih h
    exact ⟨hfirst, List.forall_mem_append.mpr ⟨hsteps, by simp [Step.Holds]⟩⟩
  | mul u v ihu ihv =>
    obtain ⟨hfirst, hsteps⟩ := ihu h.1
    obtain ⟨hfirst', hsteps'⟩ := ihv h.2
    exact ⟨hfirst,
      List.forall_mem_append.mpr ⟨hsteps, List.forall_mem_cons.mpr ⟨hfirst', hsteps'⟩⟩⟩
  | div u v ihu ihv =>
    exact ⟨readsAtom_div (ihu h.1) (ihv h.2), by simp [UnitExpr.steps]⟩

/-- **What the label of a unit shows is read from it in one way.** -/
theorem Worded.read {u v : UnitExpr} {s t : List Char} (hu : u.Worded) (hv : v.Worded)
    (hs : Ends s) (ht : Ends t) (h : (label u).toList ++ s = (label v).toList ++ t) :
    u.shown.respelled = v.shown.respelled ∧ s = t :=
  read_of_parts hu.parts hv hs ht h

/-- **Two units have one label exactly if they show the same**, up to how a mu is written. -/
theorem label_eq_iff {u v : UnitExpr} (hu : u.Worded) (hv : v.Worded) :
    label u = label v ↔ u.shown.respelled = v.shown.respelled := by
  constructor
  · intro h
    refine (hu.read hv .nil .nil ?_).1
    rw [h]
  · intro h
    rw [← label_shown u, ← label_respelled, h, label_respelled, label_shown]

/-! ## Units behind values -/

/-- Such a unit is as its label shows it. -/
theorem Chain.shown_eq {u : UnitExpr} (h : Chain u) : u.shown = u := by
  have hterm {v : UnitExpr} (hv : Term v) : v.shown = v := by
    cases hv <;> rfl
  induction h with
  | term h => exact hterm h
  | mul _ hv ih =>
    rw [shown, ih, hterm hv]
    cases hv <;> rfl
  | div _ hv ih => rw [shown, ih, hterm hv]

/-- **The label of a unit behind a value is read in one way.** -/
theorem Chain.reads {u v : UnitExpr} {s t : List Char} (hu : Chain u) (hv : Chain v) (hs : Ends s)
    (ht : Ends t) (h : (label u).toList ++ s = (label v).toList ++ t) :
    u.respelled = v.respelled ∧ s = t := by
  obtain ⟨hshown, rfl⟩ := hu.worded.read hv.worded hs ht h
  exact ⟨by rwa [hu.shown_eq, hv.shown_eq] at hshown, rfl⟩

end UnitExpr
end Mensura
