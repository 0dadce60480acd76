import Mensura.Files
import Mensura.Proofs.Files.Place
import Mensura.Proofs.Outcome

/-!
# Contents that change

Reading and writing a file goes along directories only, so it does not depend on the contents of
other files.  `ChangedAt` says of two states of the files that nothing but the contents at some
places differs.  As long as no directory is at these places, every path leads to the same place in
both (`ChangedAt.locate_iff`), and opens a file in one if it does in the other
(`ChangedAt.opens_iff`).

Where a file fits, putting it there changes nothing else (`changedAt_putAt`): the directories on
the way are there already.  So it is for a file that a path opens (`Opens.fits`).
-/

set_option autoImplicit false

namespace Mensura

namespace Files

variable {fs gs : Files} {p q : Place}

/-! ## Contents -/

theorem lookup_without (contents : List (Place × List UInt8)) :
    (contents.filter (·.1 ≠ p)).lookup q = if q = p then none else contents.lookup q := by
  induction contents with
  | nil => simp
  | cons entry rest ih =>
    obtain ⟨r, content⟩ := entry
    by_cases hr : r = p
    · rw [List.filter_cons_of_neg (by simpa using hr), ih, List.lookup_cons]
      by_cases hq : q = p
      · rw [if_pos hq, if_pos hq]
      · rw [if_neg hq, if_neg hq, beq_false_of_ne (hr ▸ hq)]
    · rw [List.filter_cons_of_pos (by simpa using hr), List.lookup_cons, List.lookup_cons, ih]
      by_cases hq : q = p
      · rw [if_pos hq, if_pos hq, beq_false_of_ne (hq ▸ Ne.symm hr)]
      · rw [if_neg hq, if_neg hq]

theorem contentAt?_putAt_self (fs : Files) (p : Place) (content : List UInt8) :
    (fs.putAt p content).contentAt? p = some content := by
  rw [contentAt?, putAt, List.lookup_append, lookup_without, if_pos rfl, Option.none_or,
    List.lookup_cons_self]

theorem contentAt?_putAt_of_ne (h : q ≠ p) (content : List UInt8) :
    (fs.putAt p content).contentAt? q = fs.contentAt? q := by
  rw [contentAt?, putAt, List.lookup_append, lookup_without, if_neg h, List.lookup_cons,
    beq_false_of_ne h]
  exact Option.or_none

theorem contentAt?_removeAt_self (fs : Files) (p : Place) :
    (fs.removeAt p).contentAt? p = none := by
  rw [contentAt?, removeAt, lookup_without, if_pos rfl]

theorem contentAt?_removeAt_of_ne (h : q ≠ p) :
    (fs.removeAt p).contentAt? q = fs.contentAt? q := by
  rw [contentAt?, removeAt, lookup_without, if_neg h, contentAt?]

/-- A file fits at a place: there is no directory, but there is one at every step of the way. -/
structure Fits (fs : Files) (p : Place) : Prop where
  free : fs.isDirectoryAt p = false
  way : ∀ a ∈ p.ancestors, fs.isDirectoryAt a = true

/-! ## Files that differ in some contents -/

/-- Nothing but the contents at some places differs. -/
structure ChangedAt (places : List Place) (fs gs : Files) : Prop where
  directories : ∀ p, gs.isDirectoryAt p = fs.isDirectoryAt p
  contents : ∀ p, p ∉ places → gs.contentAt? p = fs.contentAt? p

theorem ChangedAt.refl (places : List Place) (fs : Files) : ChangedAt places fs fs :=
  ⟨fun _ ↦ rfl, fun _ _ ↦ rfl⟩

theorem ChangedAt.fits {places : List Place} (h : ChangedAt places fs gs) (hp : fs.Fits p) :
    gs.Fits p :=
  ⟨(h.directories p).trans hp.free, fun a ha ↦ (h.directories a).trans (hp.way a ha)⟩

/-- Where a file fits, no directory has to be made for it. -/
theorem changedAt_putAt (h : fs.Fits p) (content : List UInt8) :
    ChangedAt [p] fs (fs.putAt p content) where
  directories q := by
    have hmade : p.ancestors.filter (!fs.isDirectoryAt ·) = [] := by
      simpa [List.filter_eq_nil_iff] using h.way
    rw [isDirectoryAt, putAt, hmade, List.nil_append, isDirectoryAt]
  contents q hq := contentAt?_putAt_of_ne (by simpa using hq) content

theorem changedAt_removeAt (fs : Files) (p : Place) : ChangedAt [p] fs (fs.removeAt p) where
  directories _ := rfl
  contents q hq := contentAt?_removeAt_of_ne (by simpa using hq)

/-! ## Paths -/

theorem follow_eq_ok {parts : List String} (h : fs.follow p parts = .ok q) :
    q = parts.foldl Place.step p ∧ ((∀ a ∈ p.ancestors, fs.isDirectoryAt a = true) →
      ∀ a ∈ q.ancestors, fs.isDirectoryAt a = true) := by
  induction parts generalizing p with
  | nil =>
    obtain rfl := Except.ok.inj h
    exact ⟨rfl, id⟩
  | cons part rest ih =>
    rw [follow] at h
    split at h
    · cases h
    split at h
    · cases h
    next hdirectory =>
    split at h
    · cases h
    obtain ⟨hq, hway⟩ := ih h
    refine ⟨hq, fun hp ↦ hway fun a ha ↦ ?_⟩
    rcases Place.mem_ancestors_step ha with rfl | ha
    · simpa using hdirectory
    · exact hp a ha

variable {path : String}

theorem locate_eq_ok (h : fs.locate path = .ok p) :
    p = Place.ofPath path ∧ ∀ a ∈ p.ancestors, fs.isDirectoryAt a = true := by
  rw [locate] at h
  split at h
  · cases h
  split at h
  · cases h
  obtain ⟨hp, hway⟩ := follow_eq_ok h
  exact ⟨hp, hway nofun⟩

/-- Whether a path opens a file, old or new: it leads to a place, and there is no directory. -/
def opens (fs : Files) (path : String) : Bool :=
  match fs.locate path with
  | .ok p => !fs.isDirectoryAt p
  | .error _ => false

theorem opens_iff : fs.opens path = true ↔
    fs.locate path = .ok (Place.ofPath path) ∧ fs.isDirectoryAt (Place.ofPath path) = false := by
  rw [opens]
  cases hp : fs.locate path with
  | ok p =>
    obtain rfl := (locate_eq_ok hp).1
    simp
  | error f => simp

/-- A file fits where a path opens it. -/
theorem fits_of_opens (h : fs.opens path = true) : fs.Fits (Place.ofPath path) :=
  have ⟨hp, hfree⟩ := opens_iff.mp h
  ⟨hfree, (locate_eq_ok hp).2⟩

theorem read_eq_ok_iff {content : List UInt8} : fs.read path = .ok content ↔
    fs.opens path = true ∧ fs.contentAt? (Place.ofPath path) = some content := by
  rw [opens_iff, read]
  cases hp : fs.locate path with
  | error f => simp
  | ok p =>
    obtain rfl := (locate_eq_ok hp).1
    rw [ok_bind]
    cases hfree : fs.isDirectoryAt (Place.ofPath path) with
    | true => simp
    | false => cases fs.contentAt? (Place.ofPath path) <;> simp

theorem write_of_opens (h : fs.opens path = true) (content : List UInt8) :
    fs.write path content = .ok (fs.putAt (Place.ofPath path) content) := by
  obtain ⟨hp, hfree⟩ := opens_iff.mp h
  rw [write, hp, ok_bind, hfree]
  rfl

theorem write_of_not_opens (h : fs.opens path = false) (content : List UInt8) :
    ∃ f, fs.write path content = .error f := by
  rw [opens] at h
  rw [write]
  cases hp : fs.locate path with
  | error f => exact ⟨f, rfl⟩
  | ok p =>
    have hdirectory : fs.isDirectoryAt p = true := by simpa [hp] using h
    rw [ok_bind, hdirectory]
    exact ⟨.isDirectory, rfl⟩

/-- Paths lead along directories, so contents elsewhere do not matter. -/
theorem ChangedAt.follow_iff {places : List Place} (h : ChangedAt places fs gs)
    (hfree : ∀ p ∈ places, fs.isDirectoryAt p = false) {parts : List String} :
    gs.follow p parts = .ok q ↔ fs.follow p parts = .ok q := by
  induction parts generalizing p with
  | nil => exact Iff.rfl
  | cons part rest ih =>
    rw [follow, follow, h.directories]
    cases hdirectory : fs.isDirectoryAt p with
    | false =>
      -- Neither gets past what is no directory, whether there is a file or not.
      cases gs.contentAt? p <;> cases fs.contentAt? p <;> simp
    | true =>
      have hp : p ∉ places := fun hmem ↦ by simp [hfree p hmem] at hdirectory
      rw [h.contents p hp]
      split
      · exact Iff.rfl
      split
      · exact Iff.rfl
      split
      · exact Iff.rfl
      exact ih

theorem ChangedAt.locate_iff {places : List Place} (h : ChangedAt places fs gs)
    (hfree : ∀ p ∈ places, fs.isDirectoryAt p = false) :
    gs.locate path = .ok p ↔ fs.locate path = .ok p := by
  rw [locate, locate]
  split
  · exact Iff.rfl
  split
  · exact Iff.rfl
  exact h.follow_iff hfree

theorem ChangedAt.opens {places : List Place} (h : ChangedAt places fs gs)
    (hfree : ∀ p ∈ places, fs.isDirectoryAt p = false) : gs.opens path = fs.opens path := by
  rw [Bool.eq_iff_iff, opens_iff, opens_iff, h.locate_iff hfree, h.directories]

end Files
end Mensura
