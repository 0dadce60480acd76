import Mensura.Proofs.Typeset.Display
import Mensura.Proofs.Typeset.Formula

/-!
# Reading dimensions

A dimension is typeset as a row of base units, or as a fraction of two such rows.  Signs are dropped
below the line, an exponent of one is not written, and a side without units is left out.  Still the
dimension can be told from what is left.

* `exponent_injective`: an exponent is told by its text, an integer or two with a slash.
* `factorText_read`: a factor is read in one way; a symbol ends where its exponent starts, so that
  `m` is not taken for the beginning of `mol`.
* `rowText_read`: so is a row of factors.
* `layoutText_read`: the sides of a fraction are told apart, and with them the signs.
* `same_dimension_iff`: two dimensions are displayed alike exactly if they are the same.
-/

set_option autoImplicit false

namespace Mensura
namespace Typeset

open Text (Stops)

/-! ## Exponents -/

theorem slash_not_mem_toString (n : Int) : '/' ∉ (toString n).toList := by
  have hslash (j : Nat) : '/' ∉ (toString j).toList := fun hmem ↦
    absurd (Text.isDigit_of_mem_toString hmem) (by decide)
  obtain ⟨k, ⟨-, hn⟩ | ⟨-, hn⟩⟩ := Text.toString_int_toList n
  · rw [hn]
    exact hslash k
  · rw [hn, List.mem_cons, not_or]
    exact ⟨by decide, hslash k⟩

theorem exponent_toList (r : Rat) : (exponent r).toList = (toString r.num).toList ∧ r.den = 1 ∨
    (exponent r).toList = (toString r.num).toList ++ '/' :: (toString (r.den : Int)).toList := by
  rw [exponent]
  split
  · next hden => exact .inl ⟨rfl, hden⟩
  · right
    simp only [String.toList_append, List.append_assoc]
    rfl

/-- **An exponent is told by its text.** -/
theorem exponent_injective {r r' : Rat} (h : (exponent r).toList = (exponent r').toList) :
    r = r' := by
  have hslash (xs ys : List Char) : '/' ∈ xs ++ '/' :: ys := by simp
  rcases exponent_toList r with ⟨hr, hden⟩ | hr <;>
    rcases exponent_toList r' with ⟨hr', hden'⟩ | hr' <;> rw [hr, hr'] at h
  · exact Rat.ext (Text.toString_int_injective h) (hden.trans hden'.symm)
  · exact absurd (h ▸ hslash _ _) (slash_not_mem_toString r.num)
  · exact absurd (h ▸ hslash _ _) (slash_not_mem_toString r'.num)
  · obtain ⟨hnum, hden⟩ := Text.append_cons_read (slash_not_mem_toString r.num)
      (slash_not_mem_toString r'.num) h
    exact Rat.ext (Text.toString_int_injective hnum)
      (Int.ofNat.inj (Text.toString_int_injective hden))

theorem brace_not_mem_exponent (r : Rat) : '}' ∉ (exponent r).toList := by
  rcases exponent_toList r with ⟨hr, -⟩ | hr <;> rw [hr]
  · exact UnitExpr.brace_not_mem_toString r.num
  · simp only [List.mem_append, List.mem_cons, not_or]
    exact ⟨UnitExpr.brace_not_mem_toString _, by decide, UnitExpr.brace_not_mem_toString _⟩

/-! ## Factors -/

/-- An exponent behind a symbol, where one is not written. -/
def raising (r : Rat) : List Char :=
  if r = 1 then [] else '^' :: '{' :: ((exponent r).toList ++ ['}'])

/-- A factor of a dimension. -/
def factorText (f : Base × Rat) : List Char :=
  f.1.symbol.toList ++ raising (Rat.abs f.2)

theorem factor_toList (f : Base × Rat) : (factor f.1.symbol f.2).toList = factorText f := by
  rw [factor, factorText, raising]
  split
  · exact (List.append_nil _).symm
  · simp [group]

/-- What may follow a factor: another one, or the end of its side of a fraction. -/
def factorStops : List (List Char) :=
  [['\\', ','], ['}']]

/-- The end of a side of a fraction. -/
def sideStops : List (List Char) :=
  [['}']]

theorem raising_read {r r' : Rat} {s t : List Char} (hs : Stops factorStops s)
    (ht : Stops factorStops t) (h : raising r ++ s = raising r' ++ t) : r = r' ∧ s = t := by
  have hraised {s u : List Char} (hs : Stops factorStops s) : s ≠ '^' :: u :=
    hs.ne_append (x := ['^']) (by decide)
  rw [raising, raising] at h
  split at h <;> split at h
  · next hr hr' => exact ⟨hr.trans hr'.symm, h⟩
  · exact absurd h (hraised hs)
  · exact absurd h.symm (hraised ht)
  · simp only [List.cons_append, List.append_assoc, List.cons.injEq, true_and] at h
    obtain ⟨hexponent, hst⟩ :=
      Text.append_cons_read (brace_not_mem_exponent r) (brace_not_mem_exponent r') h
    exact ⟨exponent_injective hexponent, hst⟩

theorem isName_symbol (b : Base) : Token.IsName b.symbol.toList := by
  cases b <;> exact ⟨by decide, by decide, by decide⟩

theorem symbol_injective {b b' : Base} (h : b.symbol = b'.symbol) : b = b' := by
  revert h
  cases b <;> cases b' <;> decide

theorem breaks_raising {r : Rat} {s : List Char} (hs : Stops factorStops s) :
    Breaks (raising r ++ s) := by
  rw [raising]
  split
  · obtain rfl | ⟨p, hp, rest, rfl⟩ := hs
    · exact fun c hc ↦ by simp at hc
    · simp only [factorStops, List.mem_cons, List.not_mem_nil, or_false] at hp
      rcases hp with rfl | rfl <;> exact breaks_cons (by decide)
  · exact breaks_cons (by decide)

/-- A base unit and the size of its exponent. -/
def sized (f : Base × Rat) : Base × Rat :=
  (f.1, Rat.abs f.2)

/-- **A factor is read in one way**, up to the sign of its exponent. -/
theorem factorText_read {f g : Base × Rat} {s t : List Char} (hs : Stops factorStops s)
    (ht : Stops factorStops t) (h : factorText f ++ s = factorText g ++ t) :
    sized f = sized g ∧ s = t := by
  rw [factorText, factorText, List.append_assoc, List.append_assoc] at h
  obtain ⟨hsymbol, h⟩ := name_read (isName_symbol f.1) (isName_symbol g.1) (breaks_raising hs)
    (breaks_raising ht) h
  obtain ⟨hsize, rfl⟩ := raising_read hs ht h
  exact ⟨Prod.ext (symbol_injective (String.toList_inj.mp hsymbol)) hsize, rfl⟩

/-! ## Rows of factors -/

/-- Factors with thin spaces between them. -/
def rowText (fs : List (Base × Rat)) : List Char :=
  ['\\', ','].intercalate (fs.map factorText)

/-- A factor behind the first one. -/
def nextText (f : Base × Rat) : List Char :=
  '\\' :: ',' :: factorText f

theorem rowText_cons (f : Base × Rat) (fs : List (Base × Rat)) :
    rowText (f :: fs) = factorText f ++ fs.flatMap nextText := by
  rw [rowText, List.map_cons, Text.intercalate_cons, List.flatMap_map]
  rfl

/-- The first character of a factor is a letter. -/
theorem exists_factorText_cons (f : Base × Rat) :
    ∃ c cs, factorText f = c :: cs ∧ c ∉ ['\\', '}', '1'] := by
  have hhead : (f.1.symbol.toList.head?.all (· ∉ ['\\', '}', '1'])) = true := by
    cases f.1 <;> decide +kernel
  obtain ⟨c, cs, hsymbol⟩ := (isName_symbol f.1).exists_cons
  refine ⟨c, cs ++ raising (Rat.abs f.2), by rw [factorText, hsymbol, List.cons_append], ?_⟩
  rw [hsymbol] at hhead
  exact of_decide_eq_true hhead

/-- Where a side of a fraction ends, no row starts. -/
theorem ne_rowText_cons {s t : List Char} (hs : Stops sideStops s) (f : Base × Rat)
    (fs : List (Base × Rat)) : s ≠ rowText (f :: fs) ++ t := by
  obtain ⟨c, cs, hcons, hc⟩ := exists_factorText_cons f
  rw [rowText_cons, hcons]
  rintro rfl
  obtain h | ⟨p, hp, h⟩ := hs
  · simp at h
  · obtain rfl : p = ['}'] := by simpa [sideStops] using hp
    obtain rfl : '}' = c := by simpa [List.cons_prefix_cons] using h
    simp at hc

/-- **A row of factors is read in one way**, up to the signs of their exponents. -/
theorem rowText_read {fs gs : List (Base × Rat)} {s t : List Char} (hs : Stops sideStops s)
    (ht : Stops sideStops t) (h : rowText fs ++ s = rowText gs ++ t) :
    fs.map sized = gs.map sized ∧ s = t := by
  have hside {s : List Char} (hs : Stops sideStops s) : Stops factorStops s :=
    hs.mono (by simp [sideStops, factorStops])
  have hnext (f : Base × Rat) (s : List Char) : Stops factorStops (nextText f ++ s) :=
    .inr ⟨['\\', ','], by simp [factorStops], _, rfl⟩
  have hrest (fs : List (Base × Rat)) {s : List Char} (hs : Stops sideStops s) :
      Stops factorStops (fs.flatMap nextText ++ s) := by
    cases fs with
    | nil => exact hside hs
    | cons f fs =>
      rw [List.flatMap_cons, List.append_assoc]
      exact hnext f _
  cases fs with
  | nil =>
    cases gs with
    | nil => exact ⟨rfl, h⟩
    | cons g gs => exact absurd h (ne_rowText_cons hs g gs)
  | cons f fs =>
    cases gs with
    | nil => exact absurd h.symm (ne_rowText_cons ht f fs)
    | cons g gs =>
      rw [rowText_cons, rowText_cons, List.append_assoc, List.append_assoc] at h
      obtain ⟨hfirst, h⟩ := factorText_read (hrest fs hs) (hrest gs ht) h
      obtain ⟨hmore, rfl⟩ := Text.flatMap_read (g := sized) (p := fun _ ↦ True)
        (q := fun _ ↦ True)
        (fun _ _ hs ht h ↦ factorText_read hs ht (List.cons.inj (List.cons.inj h).2).2)
        (fun _ ↦ hnext _ _) hside
        (fun {f} _ _ _ hs ↦ hs.ne_append (x := ['\\', ',']) (by decide))
        (fun _ _ ↦ trivial) (fun _ _ ↦ trivial) hs ht h
      exact ⟨by rw [List.map_cons, List.map_cons, hfirst, hmore], rfl⟩

/-! ## Fractions -/

/-- The factors above the line. -/
def above (d : Dimension) : List (Base × Rat) :=
  d.factors.filter fun f ↦ 0 < f.2

/-- The factors below the line. -/
def below (d : Dimension) : List (Base × Rat) :=
  d.factors.filter fun f ↦ f.2 < 0

/-- The upper side of a fraction, where a one stands for no factors. -/
def topText (fs : List (Base × Rat)) : List Char :=
  if fs = [] then ['1'] else rowText fs

/-- The factors above the line and those below it, if there are any. -/
def layoutText (top bottom : List (Base × Rat)) : List Char :=
  if bottom = [] then rowText top
  else fraction ++ '{' :: (topText top ++ '}' :: '{' :: (rowText bottom ++ ['}']))

theorem factors_plain (d : Dimension) :
    factors "" d = d.factors.map fun f ↦ (f.1.symbol, f.2) := by
  rw [factors]
  split
  · next h => rw [h, List.map_nil]
  · next h => simp [h]

theorem join_toList (fs : List (Base × Rat)) :
    ("\\,".intercalate ((fs.map fun f ↦ (f.1.symbol, f.2)).map fun (symbol, r) ↦
      factor symbol r)).toList = rowText fs := by
  rw [String.toList_intercalate, rowText, List.map_map, List.map_map]
  refine congrArg _ (List.map_congr_left fun f _ ↦ ?_)
  exact factor_toList f

theorem rowText_eq_nil {fs : List (Base × Rat)} : rowText fs = [] ↔ fs = [] := by
  cases fs with
  | nil => exact iff_of_true rfl rfl
  | cons f fs =>
    refine iff_of_false (fun h ↦ ?_) (List.cons_ne_nil f fs)
    exact ne_rowText_cons (t := []) (.inl rfl) f fs (by rw [List.append_nil, h])

theorem toList_top {top : String} {fs : List (Base × Rat)} (h : top.toList = rowText fs) :
    (if top.isEmpty then "1" else top).toList = topText fs := by
  have hempty : top.isEmpty = true ↔ fs = [] := by
    rw [String.isEmpty_iff, ← rowText_eq_nil, ← h, String.toList_eq_nil_iff]
  simp only [topText, hempty]
  split
  · rfl
  · exact h

/-- **The typeset form of a dimension, side by side.** -/
theorem layout_toList (d : Dimension) :
    (layout (factors "" d)).toList = layoutText (above d) (below d) := by
  have habove : d.factors.filter ((fun f : String × Rat ↦ decide (0 < f.2)) ∘
      fun f ↦ (f.1.symbol, f.2)) = above d := rfl
  have hbelow : d.factors.filter ((fun f : String × Rat ↦ decide (f.2 < 0)) ∘
      fun f ↦ (f.1.symbol, f.2)) = below d := rfl
  have htop := join_toList (above d)
  rw [layout, factors_plain, List.filter_map, List.filter_map, habove, hbelow, layoutText]
  dsimp only
  split
  · next hempty =>
    have hnone : below d = [] := by simpa using hempty
    rw [if_pos hnone, htop]
  · next hempty =>
    have hsome : below d ≠ [] := by simpa using hempty
    rw [if_neg hsome]
    simp only [frac, group, String.toList_append, join_toList, toList_top htop, List.append_assoc]
    rfl

/-! ## Reading fractions -/

/-- No row starts with a backslash. -/
theorem rowText_ne_slash (fs : List (Base × Rat)) (s : List Char) : rowText fs ≠ '\\' :: s := by
  cases fs with
  | nil => exact (List.cons_ne_nil _ _).symm
  | cons f fs =>
    obtain ⟨c, cs, hcons, hc⟩ := exists_factorText_cons f
    rw [rowText_cons, hcons]
    intro h
    simp [(List.cons.inj h).1] at hc

/-- The upper side of a fraction is read in one way. -/
theorem topText_read {fs gs : List (Base × Rat)} {s t : List Char}
    (h : topText fs ++ '}' :: s = topText gs ++ '}' :: t) :
    fs.map sized = gs.map sized ∧ s = t := by
  have hone (g : Base × Rat) (gs : List (Base × Rat)) (s t : List Char) :
      ['1'] ++ s ≠ rowText (g :: gs) ++ t := by
    obtain ⟨c, cs, hcons, hc⟩ := exists_factorText_cons g
    rw [rowText_cons, hcons]
    intro h
    simp [← (List.cons.inj h).1] at hc
  have hstops (s : List Char) : Stops sideStops ('}' :: s) :=
    .inr ⟨['}'], by simp [sideStops], s, rfl⟩
  rw [topText, topText] at h
  cases fs with
  | nil =>
    cases gs with
    | nil => exact ⟨rfl, by simpa using h⟩
    | cons g gs => exact absurd h (hone g gs _ _)
  | cons f fs =>
    cases gs with
    | nil => exact absurd h.symm (hone f fs _ _)
    | cons g gs =>
      obtain ⟨hsides, hst⟩ := rowText_read (hstops s) (hstops t) h
      exact ⟨hsides, (List.cons.inj hst).2⟩

/-- **Both sides are read in one way**, up to the signs of the exponents. -/
theorem layoutText_read {fs gs fs' gs' : List (Base × Rat)}
    (h : layoutText fs fs' = layoutText gs gs') :
    fs.map sized = gs.map sized ∧ fs'.map sized = gs'.map sized := by
  have hnil : Stops sideStops [] := .inl rfl
  have hbrace : Stops sideStops ['}'] := .inr ⟨['}'], by simp [sideStops], [], rfl⟩
  rw [layoutText, layoutText] at h
  split at h <;> split at h
  · next hfs hgs =>
    have hrow : rowText fs ++ [] = rowText gs ++ [] := by rw [h]
    exact ⟨(rowText_read hnil hnil hrow).1, by rw [hfs, hgs]⟩
  · exact absurd h (rowText_ne_slash fs _)
  · exact absurd h.symm (rowText_ne_slash gs _)
  · obtain ⟨htop, h⟩ := topText_read (List.cons.inj (List.append_cancel_left h)).2
    exact ⟨htop, (rowText_read hbrace hbrace (List.cons.inj h).2).1⟩

/-! ## Dimensions -/

theorem mem_factors {d : Dimension} {f : Base × Rat} :
    f ∈ d.factors ↔ d.exponent f.1 = f.2 ∧ f.2 ≠ 0 := by
  have hall (b : Base) : b ∈ Base.all := by cases b <;> decide
  simp only [Dimension.factors, List.mem_filter, List.mem_map, decide_eq_true_eq]
  refine and_congr_left fun _ ↦ ⟨?_, fun h ↦ ⟨f.1, hall f.1, Prod.ext rfl h⟩⟩
  rintro ⟨b, -, rfl⟩
  rfl

theorem mem_above {d : Dimension} {f : Base × Rat} :
    f ∈ above d ↔ d.exponent f.1 = f.2 ∧ 0 < f.2 := by
  rw [above, List.mem_filter, mem_factors, decide_eq_true_eq, and_assoc]
  exact and_congr_right fun _ ↦ and_iff_right_of_imp fun h ↦ (ne_of_gt h)

theorem mem_below {d : Dimension} {f : Base × Rat} :
    f ∈ below d ↔ d.exponent f.1 = f.2 ∧ f.2 < 0 := by
  rw [below, List.mem_filter, mem_factors, decide_eq_true_eq, and_assoc]
  exact and_congr_right fun _ ↦ and_iff_right_of_imp fun h ↦ (ne_of_lt h)

/-- The side on which a base unit stands gives its exponent the sign. -/
theorem exponent_eq_of_sides {d e : Dimension} (habove : (above d).map sized = (above e).map sized)
    (hbelow : (below d).map sized = (below e).map sized) {b : Base} (hb : d.exponent b ≠ 0) :
    e.exponent b = d.exponent b := by
  rcases lt_or_gt_of_ne hb with hneg | hpos
  · have hmem : (b, d.exponent b) ∈ below d := mem_below.mpr ⟨rfl, hneg⟩
    obtain ⟨⟨b', r⟩, hr, hsized⟩ := List.mem_map.mp (hbelow ▸ List.mem_map_of_mem (f := sized) hmem)
    obtain ⟨hexponent, hr⟩ := mem_below.mp hr
    obtain ⟨rfl, hsize⟩ := Prod.mk.inj hsized
    rw [Rat.abs_of_nonpos hr.le, Rat.abs_of_nonpos hneg.le] at hsize
    exact hexponent.trans (neg_injective hsize)
  · have hmem : (b, d.exponent b) ∈ above d := mem_above.mpr ⟨rfl, hpos⟩
    obtain ⟨⟨b', r⟩, hr, hsized⟩ := List.mem_map.mp (habove ▸ List.mem_map_of_mem (f := sized) hmem)
    obtain ⟨hexponent, hr⟩ := mem_above.mp hr
    obtain ⟨rfl, hsize⟩ := Prod.mk.inj hsized
    rw [Rat.abs_of_nonneg hr.le, Rat.abs_of_nonneg hpos.le] at hsize
    exact hexponent.trans hsize

/-- **A dimension is told by its typeset form.** -/
theorem layout_injective {d e : Dimension} (h : layout (factors "" d) = layout (factors "" e)) :
    d = e := by
  have htext : layoutText (above d) (below d) = layoutText (above e) (below e) := by
    rw [← layout_toList, ← layout_toList, h]
  obtain ⟨habove, hbelow⟩ := layoutText_read htext
  refine Dimension.ext_exponent fun b ↦ ?_
  by_cases hd : d.exponent b = 0
  · by_contra hne
    have he : e.exponent b ≠ 0 := fun he ↦ hne (hd.trans he.symm)
    exact hne (exponent_eq_of_sides habove.symm hbelow.symm he)
  · exact (exponent_eq_of_sides habove hbelow hd).symm

/-- **Distinct dimensions are never displayed alike.**  A text is displayed for two dimensions
exactly if they are the same, and their exponents are short enough to be written. -/
theorem same_dimension_iff (d e : Dimension) :
    (∃ s, dimension d = .ok s ∧ dimension e = .ok s) ↔ d = e ∧ d.isWritable = true := by
  have htext {d : Dimension} {s : String} (h : dimension d = .ok s) :
      layout (factors "" d) = s := by
    obtain ⟨-, -, h⟩ := bind_eq_ok.mp h
    exact Except.ok.inj h
  constructor
  · rintro ⟨s, hd, he⟩
    exact ⟨layout_injective ((htext hd).trans (htext he).symm),
      (exists_prefixed_iff "").mp ⟨s, hd⟩⟩
  · rintro ⟨rfl, hwritable⟩
    obtain ⟨s, hs⟩ := (exists_prefixed_iff "").mpr hwritable
    exact ⟨s, hs, hs⟩

/-- The first `m` is not taken for that of `mol`, and the sign of the exponent below the line is not
missed. -/
example : dimension { length := 1, time := -2, amount := 2 / 3 } =
    .ok "\\frac\x7bm\\,mol^\x7b2/3\x7d\x7d\x7bs^\x7b2\x7d\x7d" := by
  decide +kernel

end Typeset
end Mensura
