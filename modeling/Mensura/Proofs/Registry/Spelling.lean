import Mensura.Proofs.Outcome
import Mensura.Proofs.Registry.Resolution
import Mensura.Proofs.Text.Canonical
import Mensura.Proofs.UnitExpr.Label
import Mensura.Registry.Standard
import Mensura.Scalar.Exact

/-!
# Two ways to write a mu

The label of a unit does not show whether a mu in it was the micro sign or the Greek letter.  It
need not: the standard registry knows both as a prefix, with the same power of ten, and no name that
holds either.  So two units with one label are the same unit (`eval_respelled`), as far as they are
units at all.

Names are looked up in canonical form.  What is found is plain, so that nothing is lost on the way:
the decompositions of two names that differ in how a mu is written differ in just that.
-/

set_option autoImplicit false

namespace Mensura

/-! ## Names that differ in how a mu is written -/

namespace Text

open UnitExpr

theorem respell_eq_cases {c d : Char} (h : respell c = respell d) :
    c = d ∨ (c = 'µ' ∧ d = 'μ') ∨ (c = 'μ' ∧ d = 'µ') := by
  by_cases hc : c = 'µ' <;> by_cases hd : d = 'µ' <;> simp [respell, hc, hd] at h ⊢ <;> grind

theorem decomposeFully_mu {c : Char} (h : c = 'µ' ∨ c = 'μ') :
    decomposeFully 8 c.toNat = [c.toNat] := by
  rcases h with rfl | rfl <;> exact decomposeFully_of_isPlain (by decide) (by decide)

/-- Decompositions differ in how a mu is written if the texts do. -/
theorem decompose_respell {cs ds : List Char} (h : cs.map respell = ds.map respell) :
    (decompose (cs.map Char.toNat)).map (respell ∘ Char.ofNat) =
      (decompose (ds.map Char.toNat)).map (respell ∘ Char.ofNat) := by
  induction cs generalizing ds with
  | nil =>
    obtain rfl : ds = [] := by simpa using h.symm
    rfl
  | cons c cs ih =>
    obtain ⟨d, ds, rfl⟩ : ∃ d ds', ds = d :: ds' := by
      cases ds with
      | nil => cases h
      | cons d ds => exact ⟨d, ds, rfl⟩
    obtain ⟨hcd, hrest⟩ := List.cons.inj h
    have hhead : (decomposeFully 8 c.toNat).map (respell ∘ Char.ofNat) =
        (decomposeFully 8 d.toNat).map (respell ∘ Char.ofNat) := by
      rcases respell_eq_cases hcd with rfl | ⟨rfl, rfl⟩ | ⟨rfl, rfl⟩
      · rfl
      · rw [decomposeFully_mu (.inl rfl), decomposeFully_mu (.inr rfl)]
        rfl
      · rw [decomposeFully_mu (.inr rfl), decomposeFully_mu (.inl rfl)]
        rfl
    have htail := ih hrest
    simp only [decompose] at htail ⊢
    rw [List.map_cons, List.map_cons, List.flatMap_cons, List.flatMap_cons, List.map_append,
      List.map_append, hhead, htail]

/-- So do canonical forms, if they are plain. -/
theorem canonical_respell {s t : String} (h : s.toList.map respell = t.toList.map respell)
    (hs : ∀ c ∈ (canonical s).toList, isPlain c.toNat = true)
    (ht : ∀ c ∈ (canonical t).toList, isPlain c.toNat = true) :
    (canonical s).toList.map respell = (canonical t).toList.map respell := by
  have hparts := decompose_respell h
  rw [decompose_of_canonical hs, decompose_of_canonical ht, List.map_map, List.map_map] at hparts
  have hself : (respell ∘ Char.ofNat) ∘ Char.toNat = respell := by
    funext c
    simp
  rwa [hself] at hparts

theorem trim_of_isWord {s : String} (h : IsWord s.toList) : trim s = s := by
  have hblank : ∀ c ∈ s.toList, isBlank c = false := fun c hc ↦
    not_blank_of_isWordChar (h.isWordChar c hc)
  have hdrop (cs : List Char) (hcs : ∀ c ∈ cs, isBlank c = false) : cs.dropWhile isBlank = cs := by
    cases cs with
    | nil => rfl
    | cons c cs => rw [List.dropWhile_cons_of_neg (by simp [hcs c List.mem_cons_self])]
  rw [trim, trimChars, trimStart, trimEnd, hdrop _ hblank,
    hdrop _ fun c hc ↦ hblank c (List.mem_reverse.mp hc), List.reverse_reverse,
    String.ofList_toList]

end Text

namespace Registry

open Text UnitExpr

variable {α : Type} [Scalar α]

/-! ## What is found -/

/-- A character of a unit's name without prefix: plain, and no mu. -/
def isNameChar (c : Char) : Bool :=
  isPlain c.toNat && respell c != 'μ'

theorem respell_of_isNameChar {c : Char} (h : isNameChar c = true) : respell c = c := by
  refine respell_of_ne ?_
  rintro rfl
  exact absurd h (by decide)

/-- The symbols of the units do not depend on the numbers in use. -/
theorem standardUnits_map_fst : (standardUnits : List (String × PhysUnit α)).map Prod.fst =
    (standardUnits : List (String × PhysUnit Rat)).map Prod.fst := rfl

theorem isNameChar_of_mem {n : String}
    (h : n ∈ (standardUnits : List (String × PhysUnit α)).map Prod.fst ++
      standardNames.map Prod.fst) : ∀ c ∈ n.toList, isNameChar c = true := by
  have hall : ∀ n ∈ (standardUnits : List (String × PhysUnit Rat)).map Prod.fst ++
      standardNames.map Prod.fst, n.toList.all isNameChar = true := by
    decide +kernel
  rw [standardUnits_map_fst] at h
  exact List.all_eq_true.mp (hall n h)

/-- The names of units hold no mu. -/
theorem isNameChar_of_lookup {n : String} {u : PhysUnit α} (h : standard.lookup n = some u) :
    ∀ c ∈ n.toList, isNameChar c = true := by
  refine isNameChar_of_mem (α := α) ?_
  rw [lookup] at h
  cases hname : (standard : Registry α).names.lookup n with
  | none =>
    rw [hname] at h
    exact List.mem_append_left _ (List.mem_map_of_mem (mem_of_lookup h))
  | some symbol => exact List.mem_append_right _ (List.mem_map_of_mem (mem_of_lookup hname))

/-- Both ways to write a mu are prefixes with one power of ten. -/
theorem tokens_cases : ∀ t ∈ MetricPrefix.tokens, t.1.toList.all isNameChar = true ∨
    (t.1.toList = ['µ'] ∨ t.1.toList = ['μ']) ∧ t.2 = -6 := by
  decide +kernel

/-- A prefixed name is a prefix and a name. -/
theorem exists_of_prefixed? {r : Registry α} {s : String} {u : PhysUnit α}
    (h : r.prefixed? s = some u) : ∃ t ∈ MetricPrefix.tokens, ∃ rest v,
      s.toList = t.1.toList ++ rest.toList ∧ r.lookup rest = some v ∧ u = v.shifted t.2 := by
  obtain ⟨⟨p, e, rest⟩, hmem, hunit⟩ := List.exists_of_findSome?_eq_some h
  obtain ⟨hspelled, rfl, -⟩ := mem_splits.mp hmem
  obtain ⟨-, hunit⟩ := Option.ite_none_left_eq_some.mp hunit
  obtain ⟨v, hv, rfl⟩ := Option.map_eq_some_iff.mp hunit
  exact ⟨(p, e), MetricPrefix.mem_tokens.mpr hspelled, rest, v, String.toList_append, hv, rfl⟩

/-- The ways to find a unit: by a name without a mu, or with a mu in front of such a name. -/
inductive Found (s : List Char) (u : PhysUnit α) : Prop
  | named : (∀ c ∈ s, isNameChar c = true) → Found s u
  | micro {c : Char} {rest : String} {v : PhysUnit α} : respell c = 'μ' → s = c :: rest.toList →
    standard.lookup rest = some v → u = v.shifted (-6) → Found s u

theorem found_of_resolve {text : String} {u : PhysUnit α} (h : standard.resolve text = .ok u) :
    Found (normalizeSymbol text).toList u := by
  simp only [resolve] at h
  split at h
  · exact absurd h fail_ne_ok
  split at h
  · next v hv =>
    exact .named (isNameChar_of_lookup hv)
  split at h
  · exact absurd h fail_ne_ok
  split at h
  · next v hv =>
    obtain rfl := Except.ok.inj h
    obtain ⟨t, ht, rest, w, hs, hw, rfl⟩ := exists_of_prefixed? hv
    rcases tokens_cases t ht with hchars | ⟨hmu, hexponent⟩
    · refine .named fun c hc ↦ ?_
      rw [hs] at hc
      exact (List.mem_append.mp hc).elim (List.all_eq_true.mp hchars c) (isNameChar_of_lookup hw c)
    · rw [hexponent]
      rcases hmu with hmu | hmu <;> rw [hmu] at hs
      · exact .micro (by decide) hs hw rfl
      · exact .micro (by decide) hs hw rfl
  · exact absurd h fail_ne_ok

theorem Found.isPlain {s : List Char} {u : PhysUnit α} (h : Found s u) :
    ∀ c ∈ s, isPlain c.toNat = true := by
  have hname {c : Char} (hc : isNameChar c = true) : Text.isPlain c.toNat = true :=
    (Bool.and_eq_true _ _ ▸ hc).1
  cases h with
  | named h => exact fun c hc ↦ hname (h c hc)
  | micro hmu hs hv _ =>
    subst hs
    refine List.forall_mem_cons.mpr ⟨?_, fun c hc ↦ hname (isNameChar_of_lookup hv c hc)⟩
    rcases respell_eq_cases (hmu.trans (show 'μ' = respell 'μ' by decide)) with
      rfl | ⟨rfl, -⟩ | ⟨-, h⟩
    · decide
    · decide
    · exact absurd h (by decide)

/-! ## One label, one unit -/

theorem map_respell_of_isNameChar {cs : List Char} (h : ∀ c ∈ cs, isNameChar c = true) :
    cs.map respell = cs :=
  (List.map_congr_left fun c hc ↦ respell_of_isNameChar (h c hc)).trans (List.map_id _)

/-- A name is looked up by its normal form. -/
theorem resolve_normalizeSymbol {r : Registry α} {s t : String} {u v : PhysUnit α}
    (h : normalizeSymbol s = normalizeSymbol t) (hu : r.resolve s = .ok u)
    (hv : r.resolve t = .ok v) : u = v := by
  simp only [resolve, h] at hu hv
  generalize normalizeSymbol t = symbol at hu hv
  split at hu
  · exact absurd hu fail_ne_ok
  next hempty =>
  rw [if_neg hempty] at hv
  split at hu
  · next w hw =>
    rw [hw] at hv
    exact (Except.ok.inj hu).symm.trans (Except.ok.inj hv)
  next hnone =>
  rw [hnone] at hv
  dsimp only at hv
  split at hu
  · exact absurd hu fail_ne_ok
  next hwords =>
  rw [if_neg hwords] at hv
  split at hu
  · next w hw =>
    rw [hw] at hv
    exact (Except.ok.inj hu).symm.trans (Except.ok.inj hv)
  · exact absurd hu fail_ne_ok

/-- Names that differ in how a mu is written name one unit. -/
theorem resolve_respelled {s t : String} {u v : PhysUnit α} (hs : IsWord s.toList)
    (ht : IsWord t.toList) (h : s.toList.map respell = t.toList.map respell)
    (hu : standard.resolve s = .ok u) (hv : standard.resolve t = .ok v) : u = v := by
  have hfoundu := found_of_resolve hu
  have hfoundv := found_of_resolve hv
  have hnormal {s : String} (hs : IsWord s.toList) : normalizeSymbol s = canonical s := by
    rw [normalizeSymbol, trim_of_isWord hs]
  rw [hnormal hs] at hfoundu
  rw [hnormal ht] at hfoundv
  have hcanonical := canonical_respell h hfoundu.isPlain hfoundv.isPlain
  have hmu {cs : List Char} (hcs : ∀ c ∈ cs, isNameChar c = true) : 'μ' ∉ cs := fun hmem ↦
    absurd (hcs 'μ' hmem) (by decide)
  cases hfoundu with
  | named hchars =>
    cases hfoundv with
    | named hchars' =>
      rw [map_respell_of_isNameChar hchars, map_respell_of_isNameChar hchars',
        String.toList_inj] at hcanonical
      exact resolve_normalizeSymbol (by rw [hnormal hs, hnormal ht, hcanonical]) hu hv
    | micro hc hrest _ _ =>
      rw [map_respell_of_isNameChar hchars, hrest, List.map_cons, hc] at hcanonical
      exact absurd (hcanonical ▸ List.mem_cons_self) (hmu hchars)
  | micro hc hrest hlookup hunit =>
    cases hfoundv with
    | named hchars' =>
      rw [map_respell_of_isNameChar hchars', hrest, List.map_cons, hc] at hcanonical
      exact absurd (hcanonical ▸ List.mem_cons_self) (hmu hchars')
    | micro hc' hrest' hlookup' hunit' =>
      rw [hrest, hrest', List.map_cons, List.map_cons] at hcanonical
      have htail := (List.cons.inj hcanonical).2
      rw [map_respell_of_isNameChar (isNameChar_of_lookup hlookup),
        map_respell_of_isNameChar (isNameChar_of_lookup hlookup'), String.toList_inj] at htail
      rw [htail, hlookup', Option.some.injEq] at hlookup
      rw [hunit, hunit', hlookup]

/-- **Units that differ in how a mu is written are one unit.** -/
theorem eval_respelled {u v : UnitExpr} {a b : PhysUnit α} (hu : u.Worded) (hv : v.Worded)
    (h : u.respelled = v.respelled) (ha : standard.eval u = .ok a) (hb : standard.eval v = .ok b) :
    a = b := by
  induction u generalizing v a b with
  | name s =>
    cases v with
    | name t =>
      have hname : s.toList.map respell = t.toList.map respell := by
        simpa only [respelled, name.injEq, String.ofList_inj] using h
      rw [eval, UnitExpr.eval] at ha hb
      exact resolve_respelled hu hv hname ha hb
    | _ => simp [respelled] at h
  | pow u n ih =>
    cases v with
    | pow v m =>
      obtain ⟨hbase, rfl⟩ := by simpa [respelled] using h
      obtain ⟨a', ha', ha⟩ := bind_eq_ok.mp ha
      obtain ⟨b', hb', hb⟩ := bind_eq_ok.mp hb
      obtain rfl := ih hu (show v.Worded from hv) hbase ha' hb'
      exact Except.ok.inj (ha.symm.trans hb)
    | _ => simp [respelled] at h
  | mul u₁ u₂ ih₁ ih₂ =>
    cases v with
    | mul v₁ v₂ =>
      obtain ⟨hleft, hright⟩ := by simpa [respelled] using h
      obtain ⟨a₁, ha₁, ha⟩ := bind_eq_ok.mp ha
      obtain ⟨a₂, ha₂, ha⟩ := bind_eq_ok.mp ha
      obtain ⟨b₁, hb₁, hb⟩ := bind_eq_ok.mp hb
      obtain ⟨b₂, hb₂, hb⟩ := bind_eq_ok.mp hb
      obtain rfl := ih₁ hu.1 hv.1 hleft ha₁ hb₁
      obtain rfl := ih₂ hu.2 hv.2 hright ha₂ hb₂
      exact Except.ok.inj (ha.symm.trans hb)
    | _ => simp [respelled] at h
  | div u₁ u₂ ih₁ ih₂ =>
    cases v with
    | div v₁ v₂ =>
      obtain ⟨hleft, hright⟩ := by simpa [respelled] using h
      obtain ⟨a₁, ha₁, ha⟩ := bind_eq_ok.mp ha
      obtain ⟨a₂, ha₂, ha⟩ := bind_eq_ok.mp ha
      obtain ⟨b₁, hb₁, hb⟩ := bind_eq_ok.mp hb
      obtain ⟨b₂, hb₂, hb⟩ := bind_eq_ok.mp hb
      obtain rfl := ih₁ hu.1 hv.1 hleft ha₁ hb₁
      obtain rfl := ih₂ hu.2 hv.2 hright ha₂ hb₂
      exact Except.ok.inj (ha.symm.trans hb)
    | _ => simp [respelled] at h

end Registry
end Mensura
