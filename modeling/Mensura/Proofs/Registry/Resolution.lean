import Mensura.Proofs.Outcome
import Mensura.Registry
import Mensura.Scalar.Binary64

/-!
# Which unit a token names

A registry that was accepted knows a token as a name of its tables, or else as a prefix in front of
such a name.  Here both are said of the tables alone, without the order in which prefixes are tried:
`Known` names, and `Split`s of a token into a prefix and a known name that takes one.

* `MetricPrefix.tokens_sorted`: longer spellings of prefixes are tried first.
* `of_ofTables`, `lookup_eq_some_iff`: what the registry keeps says what the tables say.
* `prefixed?_eq_some_iff`: so the search for a prefix ends at the longest split.
* `resolve_outcome`: a token names what its normal form is known as, else what its longest split
  says, and is refused otherwise.

The empty token is refused even if there is a unit without a name (`empty_name_unresolved`).
-/

set_option autoImplicit false

namespace Mensura

/-! ## Spellings of prefixes -/

namespace MetricPrefix

/-- A way to write a prefix, and its power of ten. -/
inductive Spelled (p : String) (e : Int) : Prop
  | name {m : MetricPrefix} : m ∈ all → p = m.name → e = m.exponent → Spelled p e
  | symbol {m : MetricPrefix} : m ∈ all → p = m.symbol → e = m.exponent → Spelled p e
  | variant : (p, e) ∈ variants → Spelled p e

theorem mem_insertToken {x y : String × Int} {ts : List (String × Int)} :
    y ∈ insertToken x ts ↔ y = x ∨ y ∈ ts := by
  induction ts with
  | nil => simp [insertToken]
  | cons z ts ih =>
    rw [insertToken]
    split
    · exact List.mem_cons
    · rw [List.mem_cons, ih, List.mem_cons]
      exact or_left_comm

theorem mem_foldr_insertToken {y : String × Int} {ts : List (String × Int)} :
    y ∈ ts.foldr insertToken [] ↔ y ∈ ts := by
  induction ts with
  | nil => rfl
  | cons x ts ih => rw [List.foldr_cons, mem_insertToken, ih, List.mem_cons]

/-- Every spelling is tried. -/
theorem mem_tokens {p : String} {e : Int} : (p, e) ∈ tokens ↔ Spelled p e := by
  rw [tokens, mem_foldr_insertToken, List.mem_append, List.mem_flatMap]
  constructor
  · rintro (⟨m, hm, h⟩ | h)
    · rcases List.mem_cons.mp h with h | h
      · obtain ⟨hp, he⟩ := Prod.mk.inj h
        exact .name hm hp he
      · obtain ⟨hp, he⟩ := Prod.mk.inj (List.mem_singleton.mp h)
        exact .symbol hm hp he
    · exact .variant h
  · rintro (⟨hm, rfl, rfl⟩ | ⟨hm, rfl, rfl⟩ | h)
    · exact .inl ⟨_, hm, List.mem_cons_self⟩
    · exact .inl ⟨_, hm, List.mem_cons_of_mem _ (List.mem_singleton_self _)⟩
    · exact .inr h

theorem sorted_insertToken {x : String × Int} {ts : List (String × Int)}
    (h : ts.Pairwise fun s t ↦ t.1.length ≤ s.1.length) :
    (insertToken x ts).Pairwise fun s t ↦ t.1.length ≤ s.1.length := by
  induction ts with
  | nil => simp [insertToken]
  | cons y ts ih =>
    obtain ⟨hy, hts⟩ := List.pairwise_cons.mp h
    rw [insertToken]
    split
    · next hbefore =>
      have hxy : y.1.length ≤ x.1.length := by
        simp only [triedBefore, Bool.or_eq_true, Bool.and_eq_true, decide_eq_true_eq] at hbefore
        omega
      refine List.pairwise_cons.mpr ⟨List.forall_mem_cons.mpr ⟨hxy, fun z hz ↦ ?_⟩, h⟩
      exact Nat.le_trans (hy z hz) hxy
    · next hafter =>
      have hyx : x.1.length ≤ y.1.length := by
        simp only [triedBefore, Bool.or_eq_true, decide_eq_true_eq, not_or] at hafter
        omega
      refine List.pairwise_cons.mpr ⟨fun z hz ↦ ?_, ih hts⟩
      rcases mem_insertToken.mp hz with rfl | hz
      · exact hyx
      · exact hy z hz

/-- **Longer spellings are tried first.** -/
theorem tokens_sorted : tokens.Pairwise fun s t ↦ t.1.length ≤ s.1.length := by
  rw [tokens]
  generalize (all.flatMap fun p ↦ [(p.name, p.exponent), (p.symbol, p.exponent)]) ++ variants = ts
  induction ts with
  | nil => exact .nil
  | cons x ts ih => exact sorted_insertToken ih

/-- A spelling stands for one power of ten. -/
theorem Spelled.unique {p : String} {e e' : Int} (h : Spelled p e) (h' : Spelled p e') :
    e = e' := by
  have hall : ∀ s ∈ tokens, ∀ t ∈ tokens, s.1 = t.1 → s.2 = t.2 := by decide +kernel
  exact hall _ (mem_tokens.mpr h) _ (mem_tokens.mpr h') rfl

end MetricPrefix

namespace Registry

variable {α : Type} [Scalar α]

/-! ## Names in tables -/

section Tables

variable (units : List (String × PhysUnit α)) (names : List (String × String))
  (unprefixed : List String)

/-- The unit that a name stands for: as its symbol, or as another name of it. -/
inductive Known (name : String) (u : PhysUnit α) : Prop
  | symbol : units.lookup name = some u → Known name u
  | other {symbol : String} :
    names.lookup name = some symbol → units.lookup symbol = some u → Known name u

/-- A name under which its unit takes no prefix: it is listed, or another name of a listed one. -/
inductive Unprefixed (name : String) : Prop
  | listed : name ∈ unprefixed.map normalizeSymbol → Unprefixed name
  | other {symbol : String} :
    (name, symbol) ∈ names → symbol ∈ unprefixed.map normalizeSymbol → Unprefixed name

/-- A token in parts: a prefix for `10 ^ e`, and in front of it the rest, a known name that takes
one. -/
structure Split (token p : String) (e : Int) (rest : String) (base : PhysUnit α) : Prop where
  spelled : MetricPrefix.Spelled p e
  parts : token = p ++ rest
  rest_ne : rest ≠ ""
  known : Known units names rest base
  free : ¬Unprefixed names unprefixed rest

/-- A split with the longest prefix of all. -/
structure LongestSplit (token p : String) (e : Int) (rest : String) (base : PhysUnit α) : Prop
    extends Split units names unprefixed token p e rest base where
  longest : ∀ {p' : String} {e' : Int} {rest' : String} {base' : PhysUnit α},
    Split units names unprefixed token p' e' rest' base' → p'.length ≤ p.length

end Tables

variable {units : List (String × PhysUnit α)} {names : List (String × String)}
  {unprefixed : List String} {r : Registry α}

/-! ## What a registry keeps -/

theorem mem_of_lookup {β : Type} {k : String} {v : β} {l : List (String × β)}
    (h : l.lookup k = some v) : (k, v) ∈ l := by
  obtain ⟨before, after, rfl, -⟩ := List.lookup_eq_some_iff.mp h
  exact List.mem_append_right _ List.mem_cons_self

/-- Names that are accepted stand for units and are no symbols. -/
theorem of_checkNames {ns : List (String × String)} {done : PUnit}
    (h : checkNames units ns = .ok done) :
    ∀ n ∈ ns, (∃ u, units.lookup n.2 = some u) ∧ units.lookup n.1 = none := by
  induction ns with
  | nil => simp
  | cons n ns ih =>
    rw [checkNames] at h
    split at h
    · cases h
    next htarget =>
    split at h
    · cases h
    next hname =>
    refine List.forall_mem_cons.mpr ⟨⟨?_, Option.not_isSome_iff_eq_none.mp hname⟩, ih h⟩
    exact Option.isSome_iff_exists.mp (by simpa using htarget)

/-- What an accepted registry is made of. -/
theorem of_ofTables (h : ofTables units names unprefixed = .ok r) :
    r.units = units ∧ r.names = names ∧ (∀ n ∈ names, units.lookup n.1 = none) ∧
      ∀ name, name ∈ r.blocked ↔ Unprefixed names unprefixed name := by
  obtain ⟨_, hcheck, h⟩ := bind_eq_ok.mp h
  obtain rfl := Except.ok.inj h
  refine ⟨rfl, rfl, fun n hn ↦ (of_checkNames hcheck n hn).2, fun name ↦ ?_⟩
  rw [List.mem_append]
  constructor
  · rintro (h | h)
    · exact .listed h
    · obtain ⟨n, hn, rfl⟩ := List.mem_map.mp h
      obtain ⟨hmem, hlisted⟩ := List.mem_filter.mp hn
      exact .other hmem (List.contains_iff_mem.mp hlisted)
  · rintro (h | ⟨hmem, hlisted⟩)
    · exact .inl h
    · exact .inr (List.mem_map.mpr ⟨_, List.mem_filter.mpr
        ⟨hmem, List.contains_iff_mem.mpr hlisted⟩, rfl⟩)

/-- **The exact names of a registry are the known names of its tables.** -/
theorem lookup_eq_some_iff (h : ofTables units names unprefixed = .ok r) {name : String}
    {u : PhysUnit α} : r.lookup name = some u ↔ Known units names name u := by
  obtain ⟨rfl, rfl, hsymbols, -⟩ := of_ofTables h
  rw [lookup]
  cases hname : r.names.lookup name with
  | none =>
    constructor
    · exact .symbol
    · rintro (hu | ⟨hother, -⟩)
      · exact hu
      · simp [hname] at hother
  | some symbol =>
    -- another name is no symbol itself, so it is one of the two only
    have hnone : r.units.lookup name = none := hsymbols _ (mem_of_lookup hname)
    constructor
    · exact .other hname
    · rintro (hu | ⟨hother, hu⟩)
      · simp [hnone] at hu
      · rw [hname] at hother
        exact Option.some.inj hother ▸ hu

/-! ## Splitting tokens -/

/-- **The ways to split a token.** -/
theorem mem_splits {token p rest : String} {e : Int} :
    (p, e, rest) ∈ splits token ↔ MetricPrefix.Spelled p e ∧ token = p ++ rest ∧ rest ≠ "" := by
  rw [splits, List.mem_filterMap]
  constructor
  · rintro ⟨⟨p', e'⟩, hmem, h⟩
    dsimp only at h
    obtain ⟨hstart, h⟩ := Option.ite_none_right_eq_some.mp h
    simp only [Option.some.injEq, Prod.mk.injEq] at h
    obtain ⟨rfl, rfl, rfl⟩ := h
    rw [Bool.and_eq_true, Text.startsWith, List.isPrefixOf_iff_prefix, decide_eq_true_eq] at hstart
    obtain ⟨⟨rest, hrest⟩, hlength⟩ := hstart
    rw [← String.length_toList, ← String.length_toList, ← hrest, List.length_append] at hlength
    rw [← hrest, ← String.length_toList, List.drop_left]
    refine ⟨MetricPrefix.mem_tokens.mp hmem, ?_, ?_⟩
    · rw [← String.toList_inj, String.toList_append, String.toList_ofList, hrest]
    · rw [ne_eq, String.ofList_eq_empty_iff]
      rintro rfl
      simp at hlength
  · rintro ⟨hspelled, rfl, hrest⟩
    refine ⟨(p, e), MetricPrefix.mem_tokens.mpr hspelled, ?_⟩
    have hlength : 0 < rest.length := by
      rw [← String.length_toList, List.length_pos_iff]
      exact fun h ↦ hrest (String.toList_eq_nil_iff.mp h)
    dsimp only
    rw [if_pos]
    · rw [String.toList_append, ← String.length_toList, List.drop_left, String.ofList_toList]
    · rw [Bool.and_eq_true, Text.startsWith, List.isPrefixOf_iff_prefix, decide_eq_true_eq,
        String.toList_append, String.length_append]
      exact ⟨List.prefix_append _ _, by omega⟩

/-- Longer prefixes are tried first. -/
theorem splits_sorted (token : String) :
    (splits token).Pairwise fun s t ↦ t.1.length ≤ s.1.length := by
  refine MetricPrefix.tokens_sorted.filterMap _ fun s t hle s' hs t' ht ↦ ?_
  obtain ⟨-, hs⟩ := Option.ite_none_right_eq_some.mp hs
  obtain ⟨-, ht⟩ := Option.ite_none_right_eq_some.mp ht
  rw [← Option.some.inj hs, ← Option.some.inj ht]
  exact hle

/-- The parts of a token are known from the length of the first one. -/
theorem Split.eq_of_length {token p p' rest rest' : String} {e e' : Int} {base base' : PhysUnit α}
    (h : Split units names unprefixed token p e rest base)
    (h' : Split units names unprefixed token p' e' rest' base') (hlength : p.length = p'.length) :
    p = p' ∧ e = e' ∧ rest = rest' := by
  have hparts : p.toList ++ rest.toList = p'.toList ++ rest'.toList := by
    rw [← String.toList_append, ← String.toList_append, ← h.parts, ← h'.parts]
  obtain ⟨hp, hrest⟩ := List.append_inj hparts (by simpa only [String.length_toList] using hlength)
  obtain rfl := String.toList_inj.mp hp
  exact ⟨rfl, h.spelled.unique h'.spelled, String.toList_inj.mp hrest⟩

/-- Something is left behind the prefix. -/
theorem Split.length_lt {token p rest : String} {e : Int} {base : PhysUnit α}
    (h : Split units names unprefixed token p e rest base) : p.length < token.length := by
  have hrest : rest.length ≠ 0 := by
    rw [← String.length_toList, ne_eq, List.length_eq_zero_iff, String.toList_eq_nil_iff]
    exact h.rest_ne
  rw [h.parts, String.length_append]
  omega

/-- What a registry makes of one way to split a token. -/
theorem unit_of_split_iff (h : ofTables units names unprefixed = .ok r) {token p rest : String}
    {e : Int} {u : PhysUnit α} (hmem : (p, e, rest) ∈ splits token) :
    (if r.blocked.contains rest then none else (r.lookup rest).map (·.shifted e)) = some u ↔
      ∃ base, Split units names unprefixed token p e rest base ∧ u = base.shifted e := by
  obtain ⟨hspelled, hparts, hrest⟩ := mem_splits.mp hmem
  have hblocked := (of_ofTables h).2.2.2 rest
  rw [Option.ite_none_left_eq_some, List.contains_iff_mem, hblocked, Option.map_eq_some_iff]
  constructor
  · rintro ⟨hfree, base, hbase, rfl⟩
    exact ⟨base, ⟨hspelled, hparts, hrest, (lookup_eq_some_iff h).mp hbase, hfree⟩, rfl⟩
  · rintro ⟨base, hsplit, rfl⟩
    exact ⟨hsplit.free, base, (lookup_eq_some_iff h).mpr hsplit.known, rfl⟩

/-- A name stands for one unit. -/
theorem Known.unique (h : ofTables units names unprefixed = .ok r) {name : String}
    {u v : PhysUnit α} (hu : Known units names name u) (hv : Known units names name v) : u = v :=
  Option.some.inj (((lookup_eq_some_iff h).mpr hu).symm.trans ((lookup_eq_some_iff h).mpr hv))

/-- There is one longest split at most. -/
theorem LongestSplit.unique (h : ofTables units names unprefixed = .ok r)
    {token p p' rest rest' : String} {e e' : Int} {base base' : PhysUnit α}
    (hs : LongestSplit units names unprefixed token p e rest base)
    (hs' : LongestSplit units names unprefixed token p' e' rest' base') :
    e = e' ∧ base = base' := by
  obtain ⟨rfl, rfl, rfl⟩ := hs.toSplit.eq_of_length hs'.toSplit
    (Nat.le_antisymm (hs'.longest hs.toSplit) (hs.longest hs'.toSplit))
  exact ⟨rfl, hs.known.unique h hs'.known⟩

/-- What is found for a prefixed name comes from the longest split. -/
theorem exists_longestSplit (h : ofTables units names unprefixed = .ok r) {token : String}
    {u : PhysUnit α} (hu : r.prefixed? token = some u) : ∃ p e rest base,
      LongestSplit units names unprefixed token p e rest base ∧ u = base.shifted e := by
  obtain ⟨before, ⟨p, e, rest⟩, after, hsplits, hu, hbefore⟩ := List.findSome?_eq_some_iff.mp hu
  have hmem : (p, e, rest) ∈ splits token := hsplits ▸ List.mem_append_right _ List.mem_cons_self
  obtain ⟨base, hsplit, rfl⟩ := (unit_of_split_iff h hmem).mp hu
  refine ⟨p, e, rest, base, ⟨hsplit, fun {p' e' rest' base'} hsplit' ↦ ?_⟩, rfl⟩
  have hmem' : (p', e', rest') ∈ splits token :=
    mem_splits.mpr ⟨hsplit'.spelled, hsplit'.parts, hsplit'.rest_ne⟩
  have hsorted := splits_sorted token
  rw [hsplits] at hmem' hsorted
  rcases List.mem_append.mp hmem' with hmem' | hmem'
  · have hsome := (unit_of_split_iff h (hsplits ▸ List.mem_append_left _ hmem')).mpr
      ⟨base', hsplit', rfl⟩
    exact absurd ((hbefore _ hmem').symm.trans hsome) nofun
  · rcases List.mem_cons.mp hmem' with heq | hmem'
    · exact Nat.le_of_eq (congrArg String.length (Prod.mk.inj heq).1)
    · exact (List.pairwise_cons.mp (List.pairwise_append.mp hsorted).2.1).1 _ hmem'

/-- Something is found for a token with a split. -/
theorem exists_prefixed? (h : ofTables units names unprefixed = .ok r) {token p rest : String}
    {e : Int} {base : PhysUnit α} (hsplit : Split units names unprefixed token p e rest base) :
    ∃ u, r.prefixed? token = some u := by
  have hmem : (p, e, rest) ∈ splits token :=
    mem_splits.mpr ⟨hsplit.spelled, hsplit.parts, hsplit.rest_ne⟩
  have hfound := (unit_of_split_iff h hmem).mpr ⟨base, hsplit, rfl⟩
  rw [← Option.isSome_iff_exists, prefixed?, List.findSome?_isSome_iff]
  exact ⟨_, hmem, Option.isSome_iff_exists.mpr ⟨_, hfound⟩⟩

/-- **A prefixed name is what its longest split says.** -/
theorem prefixed?_eq_some_iff (h : ofTables units names unprefixed = .ok r) {token : String}
    {u : PhysUnit α} : r.prefixed? token = some u ↔ ∃ p e rest base,
      LongestSplit units names unprefixed token p e rest base ∧ u = base.shifted e := by
  refine ⟨exists_longestSplit h, ?_⟩
  rintro ⟨p, e, rest, base, hlongest, rfl⟩
  -- something is found, and whatever it is, it comes from this split
  obtain ⟨v, hv⟩ := exists_prefixed? h hlongest.toSplit
  obtain ⟨p', e', rest', base', hlongest', rfl⟩ := exists_longestSplit h hv
  obtain ⟨rfl, rfl⟩ := hlongest.unique h hlongest'
  exact hv

/-! ## Resolving tokens -/

/-- A token that names no unit is an unknown unit. -/
theorem resolve_ok_or_badUnit (r : Registry α) (token : String) :
    (∃ u, r.resolve token = .ok u) ∨
      ∃ fault, r.resolve token = .error (.calc (.badUnit token fault)) := by
  rw [resolve]
  split
  · exact .inr ⟨_, rfl⟩
  split
  · exact .inl ⟨_, rfl⟩
  split
  · exact .inr ⟨_, rfl⟩
  split
  · exact .inl ⟨_, rfl⟩
  · exact .inr ⟨_, rfl⟩

/-- The empty token names no unit, whatever the tables say. -/
theorem resolve_of_empty (r : Registry α) {token : String} (hempty : normalizeSymbol token = "") :
    r.resolve token = fail (.badUnit token .empty) := by
  rw [resolve, hempty]
  rfl

theorem resolve_of_known (h : ofTables units names unprefixed = .ok r) {token : String}
    {u : PhysUnit α} (hne : normalizeSymbol token ≠ "")
    (hu : Known units names (normalizeSymbol token) u) : r.resolve token = .ok u := by
  simp [resolve, hne, (lookup_eq_some_iff h).mpr hu]

/-- What is no name is resolved by its longest split, unless it is never split. -/
theorem resolve_eq_ok_iff (h : ofTables units names unprefixed = .ok r) {token : String}
    (hunknown : ∀ v, ¬Known units names (normalizeSymbol token) v) {u : PhysUnit α} :
    r.resolve token = .ok u ↔ normalizeSymbol token ∉ neverSplit ∧ ∃ p e rest base,
      LongestSplit units names unprefixed (normalizeSymbol token) p e rest base ∧
        u = base.shifted e := by
  rw [← prefixed?_eq_some_iff h]
  have hlookup : r.lookup (normalizeSymbol token) = none :=
    Option.eq_none_iff_forall_ne_some.mpr fun u hu ↦ hunknown u ((lookup_eq_some_iff h).mp hu)
  by_cases hempty : normalizeSymbol token = ""
  · have hnone : r.prefixed? "" = none := by
      rw [prefixed?, show splits "" = [] by decide +kernel, List.findSome?_nil]
    simp [resolve_of_empty r hempty, hempty, hnone]
  rw [resolve, if_neg (by simpa using hempty), hlookup]
  by_cases hwords : normalizeSymbol token ∈ neverSplit
  · simp [hwords]
  · cases r.prefixed? (normalizeSymbol token) <;> simp [hwords]

theorem eq_shifted_iff {u base : PhysUnit α} {e : Int} : u = base.shifted e ↔
    u.dim = base.dim ∧ u.decExp = base.decExp + e ∧ u.multiplier = base.multiplier := by
  obtain ⟨dim, decExp, multiplier, _⟩ := u
  simp [PhysUnit.shifted]

/-- **What a token names.**  An accepted registry knows a token in normal form as a name, or else
splits it; of several splits the one with the longest prefix counts. -/
theorem resolve_outcome (h : ofTables units names unprefixed = .ok r) {token s : String}
    (hs : normalizeSymbol token = s) :
    -- a name, however it could be split
    (∀ u, s ≠ "" → Known units names s u → r.resolve token = .ok u) ∧
    -- a name with a prefix
    ((∀ v, ¬Known units names s v) → s ∉ neverSplit →
      ((∃ u, r.resolve token = .ok u) ↔
        ∃ p e rest base, Split units names unprefixed s p e rest base) ∧
      ∀ u, r.resolve token = .ok u ↔ ∃ p e rest base,
        LongestSplit units names unprefixed s p e rest base ∧
          u.dim = base.dim ∧ u.decExp = base.decExp + e ∧ u.multiplier = base.multiplier) ∧
    -- nothing else
    (s = "" ∨ (∀ v, ¬Known units names s v) ∧
        (s ∈ neverSplit ∨ ¬∃ p e rest base, Split units names unprefixed s p e rest base) →
      ∃ fault, r.resolve token = .error (.calc (.badUnit token fault))) ∧
    -- no unit that takes no prefix, by whatever name it is written
    ∀ symbol ∈ unprefixed.map normalizeSymbol, ∀ u, (∀ v, ¬Known units names s v) →
      r.resolve token = .ok u → ∃ p e rest base,
        LongestSplit units names unprefixed s p e rest base ∧ u = base.shifted e ∧
          rest ≠ symbol ∧ (rest, symbol) ∉ names := by
  subst hs
  refine ⟨fun u ↦ resolve_of_known h, fun hunknown hwords ↦ ⟨⟨?_, ?_⟩, fun u ↦ ?_⟩, ?_, ?_⟩
  · rintro ⟨u, hu⟩
    obtain ⟨-, p, e, rest, base, hlongest, -⟩ := (resolve_eq_ok_iff h hunknown).mp hu
    exact ⟨p, e, rest, base, hlongest.toSplit⟩
  · rintro ⟨p, e, rest, base, hsplit⟩
    obtain ⟨u, hu⟩ := exists_prefixed? h hsplit
    exact ⟨u, (resolve_eq_ok_iff h hunknown).mpr ⟨hwords, (prefixed?_eq_some_iff h).mp hu⟩⟩
  · rw [resolve_eq_ok_iff h hunknown]
    simp only [hwords, not_false_eq_true, true_and, eq_shifted_iff]
  · intro hother
    refine (resolve_ok_or_badUnit r token).resolve_left ?_
    rintro ⟨u, hu⟩
    rcases hother with hempty | ⟨hunknown, hother⟩
    · rw [resolve_of_empty r hempty] at hu
      exact fail_ne_ok hu
    obtain ⟨hwords, p, e, rest, base, hlongest, -⟩ := (resolve_eq_ok_iff h hunknown).mp hu
    exact hother.elim hwords fun hnone ↦ hnone ⟨p, e, rest, base, hlongest.toSplit⟩
  · intro symbol hsymbol u hunknown hu
    obtain ⟨-, p, e, rest, base, hlongest, rfl⟩ := (resolve_eq_ok_iff h hunknown).mp hu
    refine ⟨p, e, rest, base, hlongest, rfl, ?_, fun hother ↦ hlongest.free (.other hother hsymbol)⟩
    rintro rfl
    exact hlongest.free (.listed hsymbol)

/-! ## Rare tokens -/

/-- Units with names that hold prefixes. -/
def crossedUnits : List (String × PhysUnit Float) :=
  [("g", .decimal (.base .mass) 0), ("ag", .decimal (.base .length) 0),
    ("min", .decimal (.base .time) 1)]

theorem crossed_free {name : String} (h : name ≠ "min" ∧ name ≠ "minute") :
    ¬Unprefixed [("minute", "min")] ["min"] name := by
  have hmin : normalizeSymbol "min" = "min" := by decide +kernel
  rintro (hlisted | ⟨hother, -⟩)
  · exact h.1 (by simpa [hmin] using hlisted)
  · simp only [List.mem_singleton, Prod.mk.injEq] at hother
    exact h.2 hother.1

/-- Where a decagram and a deciag are written alike, the longer prefix wins; the minute takes no
prefix under its other name either. -/
theorem resolve_outcome_crossed : ∃ r, ofTables crossedUnits [("minute", "min")] ["min"] = .ok r ∧
    (∃ base, Split crossedUnits [("minute", "min")] ["min"] "dag" "d" (-1) "ag" base) ∧
    r.resolve "dag" = .ok (.decimal (.base .mass) 1) ∧
    ∃ fault, r.resolve "kminute" = .error (.calc (.badUnit "kminute" fault)) := by
  refine ⟨_, rfl, ⟨.decimal (.base .length) 0, .symbol (m := ⟨"deci", "d", -1⟩) (by decide) rfl rfl,
    rfl, by decide, .symbol rfl, crossed_free (by decide)⟩, ?_, ?_⟩
  · have hunknown : ∀ v, ¬Known crossedUnits [("minute", "min")] "dag" v := by
      rintro v (h | ⟨h, -⟩) <;> cases h
    refine (((resolve_outcome rfl (by decide +kernel)).2.1 hunknown (by decide)).2 _).mpr
      ⟨"da", 1, "g", .decimal (.base .mass) 0, ⟨⟨.symbol (m := ⟨"deca", "da", 1⟩) (by decide) rfl rfl,
        rfl, by decide, .symbol rfl, crossed_free (by decide)⟩, fun h ↦ ?_⟩, rfl, rfl, rfl⟩
    exact Nat.le_of_lt_succ h.length_lt
  · have hunknown : ∀ v, ¬Known crossedUnits [("minute", "min")] "kminute" v := by
      rintro v (h | ⟨h, -⟩) <;> cases h
    refine (resolve_outcome rfl (by decide +kernel)).2.2.1 (.inr ⟨hunknown, .inr ?_⟩)
    rintro ⟨p, e, rest, base, hsplit⟩
    have hend : rest.toList <:+ "kminute".toList :=
      ⟨p.toList, by rw [← String.toList_append, ← hsplit.parts]⟩
    rcases hsplit.known with hsymbol | ⟨hother, -⟩
    · have hnone : ∀ n ∈ crossedUnits.map Prod.fst, ¬n.toList <:+ "kminute".toList := by decide
      exact hnone rest (List.mem_map_of_mem (mem_of_lookup hsymbol)) hend
    · have hlisted : ∀ n ∈ [("minute", "min")], n.2 ∈ ["min"].map normalizeSymbol := by
        decide +kernel
      exact hsplit.free (.other (mem_of_lookup hother) (hlisted _ (mem_of_lookup hother)))

/-- A unit without a name is accepted, and cannot be asked for. -/
theorem empty_name_unresolved :
    ∃ r, ofTables [("", .decimal (.base .length) 0)] [] [] = .ok (r : Registry Float) ∧
      Known [("", .decimal (.base .length) 0)] [] (normalizeSymbol "")
        (.decimal (.base .length) 0 : PhysUnit Float) ∧
      r.resolve "" = .error (.calc (.badUnit "" .empty)) :=
  ⟨_, rfl, .symbol rfl, rfl⟩

end Registry
end Mensura
