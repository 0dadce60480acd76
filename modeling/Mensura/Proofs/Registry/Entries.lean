import Mensura.Proofs.Registry.Resolution

/-!
# Which entries of a registry are found

A registry keeps names as its tables write them, and looks a token up by its normal form.  So an
entry is found under its own name if that is in normal form: then it is, whatever other entries and
prefixes there are.  Any other name loses its entry in some registry that is accepted.

* `resolve_of_isNormal`: a name in normal form names its own unit.
* `resolve_sole_iff`: where there is one unit only, a token names it exactly if its normal form is a
  name of it, for a prefix always changes a unit (`shifted_ne`).
* `resolve_entry`: the entries of an accepted registry, and which of them are found.
-/

set_option autoImplicit false

namespace Mensura

/-- Every prefix scales. -/
theorem MetricPrefix.Spelled.exponent_ne {p : String} {e : Int} (h : Spelled p e) : e ≠ 0 := by
  have hall : ∀ t ∈ tokens, t.2 ≠ 0 := by decide +kernel
  exact hall _ (mem_tokens.mpr h)

namespace Registry

/-- A name in the form in which names are looked up. -/
structure IsNormal (name : String) : Prop where
  ne_empty : name ≠ ""
  normalized : normalizeSymbol name = name

variable {α : Type} [Scalar α] {units : List (String × PhysUnit α)}
  {names : List (String × String)} {unprefixed : List String} {r : Registry α}

/-! ## Entries -/

theorem mem_keys_iff {β : Type} {k : String} {l : List (String × β)} :
    k ∈ l.map Prod.fst ↔ ∃ v, l.lookup k = some v := by
  rw [← Option.isSome_iff_exists, List.lookup_isSome_iff, List.mem_map]
  exact exists_congr fun _ ↦ and_congr_right' (eq_comm.trans beq_iff_eq.symm)

/-- The names of an accepted registry are its symbols and their other names. -/
theorem exists_known_iff (h : ofTables units names unprefixed = .ok r) {name : String} :
    (∃ u, Known units names name u) ↔ name ∈ units.map Prod.fst ∨ name ∈ names.map Prod.fst := by
  rw [mem_keys_iff, mem_keys_iff]
  constructor
  · rintro ⟨u, hu | ⟨hname, -⟩⟩
    · exact .inl ⟨u, hu⟩
    · exact .inr ⟨_, hname⟩
  · rintro (⟨u, hu⟩ | ⟨symbol, hname⟩)
    · exact ⟨u, .symbol hu⟩
    · -- that the symbol has a unit was checked when the tables were accepted
      obtain ⟨_, hcheck, -⟩ := bind_eq_ok.mp h
      obtain ⟨⟨u, hu⟩, -⟩ := of_checkNames hcheck _ (mem_of_lookup hname)
      exact ⟨u, .other hname hu⟩

/-- **A name in normal form names its own unit.** -/
theorem resolve_of_isNormal (h : ofTables units names unprefixed = .ok r) {name : String}
    {u : PhysUnit α} (hname : IsNormal name) (hu : Known units names name u) :
    r.resolve name = .ok u := by
  refine resolve_of_known h ?_ ?_ <;> rw [hname.normalized]
  · exact hname.ne_empty
  · exact hu

/-! ## A single unit -/

theorem shifted_ne {u : PhysUnit α} {e : Int} (he : e ≠ 0) : u ≠ u.shifted e := fun h ↦ by
  have hexp := (eq_shifted_iff.mp h).2.1
  omega

theorem Known.eq_of_sole {u v : PhysUnit α} (hsole : ∀ n ∈ units, n.2 = u) {name : String}
    (hv : Known units names name v) : v = u := by
  rcases hv with hv | ⟨-, hv⟩
  · exact hsole _ (mem_of_lookup hv)
  · exact hsole _ (mem_of_lookup hv)

/-- Where there is one unit only, prefixes lead away from it: its names alone name it. -/
theorem resolve_sole_iff (h : ofTables units names unprefixed = .ok r) {u : PhysUnit α}
    (hsole : ∀ n ∈ units, n.2 = u) {token : String} :
    r.resolve token = .ok u ↔
      normalizeSymbol token ≠ "" ∧ Known units names (normalizeSymbol token) u := by
  refine ⟨fun hu ↦ ?_, fun ⟨hne, hu⟩ ↦ resolve_of_known h hne hu⟩
  refine ⟨fun hempty ↦ fail_ne_ok ((resolve_of_empty r hempty).symm.trans hu), ?_⟩
  refine Classical.byContradiction fun hunknown ↦ ?_
  have hnone : ∀ v, ¬Known units names (normalizeSymbol token) v := fun v hv ↦
    hunknown (hv.eq_of_sole hsole ▸ hv)
  obtain ⟨-, p, e, rest, base, hlongest, hshifted⟩ := (resolve_eq_ok_iff h hnone).mp hu
  obtain rfl := hlongest.known.eq_of_sole hsole
  exact shifted_ne hlongest.spelled.exponent_ne hshifted

/-- A name that is not in normal form loses its unit where there is no other unit and no entry for
the normal form. -/
theorem resolve_ne_of_not_isNormal (h : ofTables units names unprefixed = .ok r)
    {u : PhysUnit α} (hsole : ∀ n ∈ units, n.2 = u) {name : String} (hname : ¬IsNormal name)
    (hothers : normalizeSymbol name ≠ name → normalizeSymbol name ∉ units.map Prod.fst ∧
      normalizeSymbol name ∉ names.map Prod.fst) : r.resolve name ≠ .ok u := by
  intro hu
  obtain ⟨hne, hknown⟩ := (resolve_sole_iff h hsole).mp hu
  by_cases hnormal : normalizeSymbol name = name
  · exact hname ⟨hnormal ▸ hne, hnormal⟩
  · obtain ⟨hsymbols, hnames⟩ := hothers hnormal
    exact ((exists_known_iff h).mp ⟨u, hknown⟩).elim hsymbols hnames

theorem exists_ne_ne (s t : String) : ∃ symbol, symbol ≠ s ∧ symbol ≠ t := by
  have hne {s' : String} (hlength : s'.length < (s ++ t ++ "x").length) : s ++ t ++ "x" ≠ s' :=
    fun h ↦ absurd (congrArg String.length h) (Nat.ne_of_gt hlength)
  have hx : "x".length = 1 := rfl
  refine ⟨s ++ t ++ "x", hne ?_, hne ?_⟩ <;> simp only [String.length_append, hx] <;> omega

/-! ## Which entries are found -/

/-- **The entries of a registry.**  Every symbol and every other name of an accepted registry stands
for one unit.  If the name is in normal form, it names that unit, whatever else there is in the
registry; if it is not, there are accepted registries in which it does not, as a symbol and as
another name. -/
theorem resolve_entry (h : ofTables units names unprefixed = .ok r) {name : String}
    (hname : name ∈ units.map Prod.fst ∨ name ∈ names.map Prod.fst) :
    ∃ u, (∀ v, Known units names name v ↔ v = u) ∧
      (IsNormal name → r.resolve name = .ok u) ∧
      (¬IsNormal name →
        (∃ r', ofTables [(name, u)] [] [] = .ok r' ∧ r'.resolve name ≠ .ok u) ∧
        ∃ symbol r', ofTables [(symbol, u)] [(name, symbol)] [] = .ok r' ∧
          r'.resolve name ≠ .ok u) := by
  obtain ⟨u, hu⟩ := (exists_known_iff h).mpr hname
  refine ⟨u, fun v ↦ ⟨fun hv ↦ hv.unique h hu, fun hv ↦ hv ▸ hu⟩,
    fun hnormal ↦ resolve_of_isNormal h hnormal hu, fun hnot ↦ ⟨?_, ?_⟩⟩
  · have haccepted : ofTables [(name, u)] [] [] = .ok ⟨[(name, u)], [], []⟩ := rfl
    refine ⟨_, haccepted, resolve_ne_of_not_isNormal haccepted (by simp) hnot fun hne ↦ ?_⟩
    simp [hne]
  · obtain ⟨symbol, hsymbol, hnormal⟩ := exists_ne_ne name (normalizeSymbol name)
    have haccepted : ofTables [(symbol, u)] [(name, symbol)] [] =
        .ok ⟨[(symbol, u)], [(name, symbol)], []⟩ := by
      simp [ofTables, checkNames, List.lookup_cons, beq_false_of_ne hsymbol.symm]
    refine ⟨symbol, _, haccepted, resolve_ne_of_not_isNormal haccepted (by simp) hnot fun hne ↦ ?_⟩
    simp [hne, hnormal.symm]

/-- A name that could also be split, in two ways. -/
theorem resolve_entry_dag : ∃ r, ofTables crossedUnits [("dag", "min")] [] = .ok r ∧
    r.resolve "dag" = .ok (.decimal (.base .time) 1) := by
  obtain ⟨r, hr⟩ : ∃ r, ofTables crossedUnits [("dag", "min")] [] = .ok r := ⟨_, rfl⟩
  obtain ⟨u, hknown, hfound, -⟩ := resolve_entry hr (.inr (List.mem_singleton_self "dag"))
  obtain rfl := (hknown (.decimal (.base .time) 1)).mp (.other rfl rfl)
  exact ⟨r, hr, hfound ⟨by decide, by decide +kernel⟩⟩

/-- A unit under a name that starts with a blank is accepted, and unknown under that name. -/
theorem blank_name_unknown :
    ∃ r, ofTables [(" m", .decimal (.base .length) 0)] [] [] = .ok (r : Registry Float) ∧
      Known [(" m", .decimal (.base .length) 0)] [] " m"
        (.decimal (.base .length) 0 : PhysUnit Float) ∧
      r.resolve " m" = .error (.calc (.badUnit " m" .unknown)) :=
  ⟨_, rfl, .symbol rfl, rfl⟩

end Registry
end Mensura
