import Mensura.Files.Place

/-!
# Places and their paths

The place that a path comes down to has a shortest path, which comes down to the same place
(`Place.ofPath_path`).  For `..` stands only in front of all names, and only in paths that start in
the working directory; and the names of a place are parts of a path, so writing slashes between them
and splitting there gives them back (`Path.parts_intercalate`).
-/

set_option autoImplicit false

namespace Mensura

namespace Path

/-- A name that stands for itself between slashes. -/
structure IsPart (name : String) : Prop where
  nonempty : name.toList ≠ []
  named : name.toList ≠ ['.']
  unsplit : '/' ∉ name.toList

theorem splitSlashes_append_slash {cs : List Char} (h : '/' ∉ cs) (part rest : List Char) :
    splitSlashes part (cs ++ '/' :: rest) = (part.reverse ++ cs) :: splitSlashes [] rest := by
  induction cs generalizing part with
  | nil => simp [splitSlashes]
  | cons c cs ih =>
    obtain ⟨hc, hcs⟩ := not_or.mp (fun h' ↦ h (List.mem_cons.mpr h'))
    rw [List.cons_append, splitSlashes, if_neg (Ne.symm hc), ih hcs]
    simp

theorem splitSlashes_eq_singleton {cs : List Char} (h : '/' ∉ cs) (part : List Char) :
    splitSlashes part cs = [part.reverse ++ cs] := by
  induction cs generalizing part with
  | nil => simp [splitSlashes]
  | cons c cs ih =>
    obtain ⟨hc, hcs⟩ := not_or.mp (fun h' ↦ h (List.mem_cons.mpr h'))
    rw [splitSlashes, if_neg (Ne.symm hc), ih hcs]
    simp

theorem slash_notMem_of_mem_splitSlashes {cs part piece : List Char} (hpart : '/' ∉ part)
    (h : piece ∈ splitSlashes part cs) : '/' ∉ piece := by
  induction cs generalizing part with
  | nil =>
    obtain rfl : piece = part.reverse := by simpa [splitSlashes] using h
    simpa using hpart
  | cons c cs ih =>
    rw [splitSlashes] at h
    split at h
    · rcases List.mem_cons.mp h with rfl | h
      · simpa using hpart
      · exact ih List.not_mem_nil h
    · next hc => exact ih (by simpa [eq_comm] using ⟨hc, hpart⟩) h

theorem isPart_of_mem_parts {path name : String} (h : name ∈ parts path) : IsPart name := by
  obtain ⟨piece, hpiece, rfl⟩ := List.mem_map.mp h
  obtain ⟨hmem, hname⟩ := List.mem_filter.mp hpiece
  obtain ⟨hempty, hdot⟩ : piece ≠ [] ∧ piece ≠ ['.'] := by simpa using hname
  have hslash := slash_notMem_of_mem_splitSlashes List.not_mem_nil hmem
  constructor <;> rwa [String.toList_ofList]

/-- A slash in front means nothing for the parts. -/
theorem parts_slash (path : String) : parts ("/" ++ path) = parts path := by
  have hslash : ("/" ++ path).toList = '/' :: path.toList := by rw [String.toList_append]; rfl
  rw [parts, hslash, splitSlashes, if_pos rfl, parts]
  rfl

section

variable {name : String} (h : IsPart name)

include h

theorem parts_name : parts name = [name] := by
  rw [parts, splitSlashes_eq_singleton h.unsplit,
    List.filter_cons_of_pos (by simp [h.nonempty, h.named])]
  simp [String.ofList_toList]

theorem parts_name_slash (path : String) : parts (name ++ "/" ++ path) = name :: parts path := by
  have hslash : (name ++ "/" ++ path).toList = name.toList ++ '/' :: path.toList := by
    rw [String.toList_append, String.toList_append, List.append_assoc]
    rfl
  rw [parts, hslash, splitSlashes_append_slash h.unsplit,
    List.filter_cons_of_pos (by simp [h.nonempty, h.named]), parts]
  simp [String.ofList_toList]

end

/-- **Names between slashes are the parts of what is written.** -/
theorem parts_intercalate {names : List String} (h : ∀ name ∈ names, IsPart name) :
    parts ("/".intercalate names) = names := by
  induction names with
  | nil => rfl
  | cons name rest ih =>
    obtain ⟨hname, hrest⟩ := List.forall_mem_cons.mp h
    cases rest with
    | nil =>
      rw [String.intercalate_singleton]
      exact parts_name hname
    | cons next rest => rw [String.intercalate_cons_cons, parts_name_slash hname, ih hrest]

theorem isAbsolute_slash (path : String) : isAbsolute ("/" ++ path) = true := by
  rw [isAbsolute, String.toList_append]
  rfl

/-- Names between slashes do not begin with one. -/
theorem not_isAbsolute_intercalate {name : String} (h : IsPart name) (rest : List String) :
    ("/".intercalate (name :: rest)).isEmpty = false ∧
      isAbsolute ("/".intercalate (name :: rest)) = false := by
  obtain ⟨c, cs, hcs⟩ := List.exists_cons_of_ne_nil h.nonempty
  have hc : c ≠ '/' := fun hc ↦ h.unsplit (by simp [hcs, hc])
  have hfirst : ∃ more, ("/".intercalate (name :: rest)).toList = c :: more := by
    cases rest with
    | nil => exact ⟨cs, by rw [String.intercalate_singleton, hcs]⟩
    | cons next rest =>
      refine ⟨cs ++ "/".toList ++ ("/".intercalate (next :: rest)).toList, ?_⟩
      rw [String.intercalate_cons_cons, String.toList_append, String.toList_append, hcs]
      rfl
  obtain ⟨more, hmore⟩ := hfirst
  constructor
  · rw [Bool.eq_false_iff, ne_eq, String.isEmpty_iff, ← String.toList_inj, hmore]
    exact List.cons_ne_nil _ _
  · rw [isAbsolute, hmore]
    simpa using hc

end Path

namespace Place

/-- A step makes a directory of the place it leaves, at most. -/
theorem mem_ancestors_step {p a : Place} {part : String} (h : a ∈ (p.step part).ancestors) :
    a = p ∨ a ∈ p.ancestors := by
  obtain ⟨absolute, names⟩ := p
  rw [step] at h
  split at h
  · cases names with
    | nil =>
      cases absolute
      · exact .inl (by simpa [up, ancestors, behindEach] using h)
      · exact .inr h
    | cons name rest =>
      simp only [up] at h
      split at h
      · exact List.mem_cons.mp h
      · exact .inr (List.mem_cons_of_mem _ h)
  · exact List.mem_cons.mp h

/-- The names of a place that a path comes down to, the last one first. -/
def Reduced (absolute : Bool) : List String → Prop
  | [] => True
  | name :: rest => Path.IsPart name ∧
      (name = upward → absolute = false ∧ ∀ next ∈ rest.head?, next = upward) ∧
      Reduced absolute rest

theorem isPart_upward : Path.IsPart upward :=
  ⟨by decide, by decide, by decide⟩

theorem reduced_up {p : Place} (h : Reduced p.absolute p.names) :
    Reduced p.up.absolute p.up.names := by
  obtain ⟨absolute, names⟩ := p
  cases names with
  | nil =>
    cases absolute
    · exact ⟨isPart_upward, fun _ ↦ ⟨rfl, nofun⟩, trivial⟩
    · exact h
  | cons name rest =>
    simp only [up]
    split
    · next hname => exact ⟨isPart_upward, fun _ ↦ ⟨(h.2.1 hname).1, by simpa using hname⟩, h⟩
    · exact h.2.2

theorem reduced_step {p : Place} (h : Reduced p.absolute p.names) {part : String}
    (hpart : Path.IsPart part) : Reduced (p.step part).absolute (p.step part).names := by
  rw [step]
  split
  · exact reduced_up h
  · next hne => exact ⟨hpart, fun heq ↦ absurd heq hne, h⟩

theorem reduced_foldl_step {parts : List String} (hparts : ∀ part ∈ parts, Path.IsPart part)
    {p : Place} (h : Reduced p.absolute p.names) :
    Reduced (parts.foldl step p).absolute (parts.foldl step p).names := by
  induction parts generalizing p with
  | nil => exact h
  | cons part rest ih =>
    obtain ⟨hpart, hrest⟩ := List.forall_mem_cons.mp hparts
    exact ih hrest (reduced_step h hpart)

theorem reduced_ofPath (path : String) :
    Reduced (ofPath path).absolute (ofPath path).names :=
  reduced_foldl_step (fun _ ↦ Path.isPart_of_mem_parts) trivial

/-- The way to a place leads there. -/
theorem foldl_step_reverse {absolute : Bool} {names : List String} (h : Reduced absolute names) :
    names.reverse.foldl step ⟨absolute, []⟩ = ⟨absolute, names⟩ := by
  induction names with
  | nil => rfl
  | cons name rest ih =>
    rw [List.reverse_cons, List.foldl_append, ih h.2.2, List.foldl_cons, List.foldl_nil, step]
    split
    · next hname =>
      obtain ⟨rfl, hnext⟩ := h.2.1 hname
      subst hname
      cases rest with
      | nil => rfl
      | cons next rest => rw [up]; simp only [hnext next rfl, if_true]
    · rfl

theorem isPart_of_reduced {absolute : Bool} {names : List String} (h : Reduced absolute names) :
    ∀ name ∈ names, Path.IsPart name := by
  induction names with
  | nil => nofun
  | cons name rest ih => exact List.forall_mem_cons.mpr ⟨h.1, ih h.2.2⟩

theorem ofPath_path_of_reduced {p : Place} (h : Reduced p.absolute p.names) :
    ofPath p.path = p := by
  obtain ⟨absolute, names⟩ := p
  have hnames : ∀ name ∈ names.reverse, Path.IsPart name := fun name hname ↦
    isPart_of_reduced h name (List.mem_reverse.mp hname)
  have hparts := Path.parts_intercalate hnames
  obtain ⟨hpath, habsolute⟩ : Path.parts (Place.path ⟨absolute, names⟩) = names.reverse ∧
      Path.isAbsolute (Place.path ⟨absolute, names⟩) = absolute := by
    rw [path]
    cases absolute with
    | true => exact ⟨(Path.parts_slash _).trans hparts, Path.isAbsolute_slash _⟩
    | false =>
      dsimp only
      rw [if_neg Bool.false_ne_true]
      cases hreverse : names.reverse with
      | nil => exact ⟨rfl, rfl⟩
      | cons name rest =>
        rw [hreverse] at hnames hparts
        obtain ⟨hbody, habsolute⟩ :=
          Path.not_isAbsolute_intercalate (hnames name List.mem_cons_self) rest
        rw [hbody, if_neg Bool.false_ne_true]
        exact ⟨hparts, habsolute⟩
  rw [ofPath, start, hpath, habsolute]
  exact foldl_step_reverse h

/-- **The shortest path to a place leads there.** -/
theorem ofPath_path (path : String) : ofPath (ofPath path).path = ofPath path :=
  ofPath_path_of_reduced (reduced_ofPath path)

end Place
end Mensura
