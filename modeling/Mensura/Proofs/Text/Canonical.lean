import Mensura.Text.Canonical

/-!
# Plain characters in canonical form

The canonical form of a text takes characters apart and puts them together again.  What comes out
plain — an ASCII character, the micro sign, or one of the Greek letters that unit names use — is
never put together from anything: so a text of a plain canonical form decomposes into just that
form (`decompose_of_canonical`).

The tables are checked line by line.  A line is a literal, and `forall_line_cons` takes its
characters from it without decoding it.
-/

set_option autoImplicit false

namespace Mensura
namespace Text

/-! ## Lines of the tables -/

/-- The entries of a line have a property. -/
def entriesAll (p : List Nat → Bool) (line : List Char) : Bool :=
  (readEntries 0 [] line).all p

theorem forall_line_cons {p : List Nat → Bool} {line : String} {cs : List Char}
    {lines : List String} (hline : line = String.ofList cs) (h : entriesAll p cs = true)
    (hlines : ∀ l ∈ lines, entriesAll p l.toList = true) :
    ∀ l ∈ line :: lines, entriesAll p l.toList = true := by
  intro l hl
  rcases List.mem_cons.mp hl with rfl | hl
  · rwa [hline, String.toList_ofList]
  · exact hlines l hl

/-- A property of the entries of all lines is one of the whole table. -/
theorem forall_entry {p : List Nat → Bool} {lines : List String}
    (h : ∀ l ∈ lines, entriesAll p l.toList = true) :
    ∀ entry ∈ lines.flatMap fun line ↦ readEntries 0 [] line.toList, p entry = true := by
  intro entry hentry
  obtain ⟨line, hline, hmem⟩ := List.mem_flatMap.mp hentry
  exact List.all_eq_true.mp (h line hline) entry hmem

/-! ## Plain code points -/

/-- The code points of ASCII, the micro sign, the capital omega and the Greek mu. -/
def isPlain (n : Nat) : Bool :=
  (0 < n && n < 0x80) || n = 0xB5 || n = 0x3A9 || n = 0x3BC

theorem composites_not_plain :
    ∀ entry ∈ compositeTable, (entry.head?.all fun n ↦ !isPlain n) = true := by
  refine forall_entry (p := fun entry ↦ entry.head?.all fun n ↦ !isPlain n) ?_
  unfold composites
  repeat refine forall_line_cons rfl (by decide +kernel) ?_
  exact fun l hl ↦ absurd hl List.not_mem_nil

theorem oneWay_not_mu : ∀ entry ∈ oneWayTable, (entry.head?.all (· != 0x3BC)) = true := by
  refine forall_entry (p := fun entry ↦ entry.head?.all (· != 0x3BC)) ?_
  unfold oneWay
  repeat refine forall_line_cons rfl (by decide +kernel) ?_
  exact fun l hl ↦ absurd hl List.not_mem_nil

theorem classes_not_greek : ∀ entry ∈ classTable,
    (match entry with
      | [first, last, _] => !((first ≤ 0x3A9 && 0x3A9 ≤ last) || (first ≤ 0x3BC && 0x3BC ≤ last))
      | _ => true) = true := by
  refine forall_entry (p := fun entry ↦ match entry with
    | [first, last, _] => !((first ≤ 0x3A9 && 0x3A9 ≤ last) || (first ≤ 0x3BC && 0x3BC ≤ last))
    | _ => true) ?_
  unfold combiningClasses
  repeat refine forall_line_cons rfl (by decide +kernel) ?_
  exact fun l hl ↦ absurd hl List.not_mem_nil

/-! ## Plain characters one by one -/

theorem isPlain_cases {n : Nat} (h : isPlain n = true) :
    (0 < n ∧ n < 0xC0) ∨ n = 0x3A9 ∨ n = 0x3BC := by
  simp only [isPlain, Bool.or_eq_true, Bool.and_eq_true, decide_eq_true_eq] at h
  omega

/-- Plain characters start clusters. -/
theorem combiningClass_of_isPlain {n : Nat} (h : isPlain n = true) : combiningClass n = 0 := by
  rcases isPlain_cases h with hless | hgreek
  · rw [combiningClass, if_pos (by omega)]
  · rw [combiningClass, if_neg (by omega)]
    split
    · next first last k hfind =>
      have hclass := classes_not_greek _ (List.mem_of_find?_eq_some hfind)
      have hrange := List.find?_some hfind
      simp only [Bool.and_eq_true, decide_eq_true_eq, Bool.not_eq_true', Bool.or_eq_false_iff,
        Bool.and_eq_false_iff, decide_eq_false_iff_not] at hclass hrange
      omega
    · rfl

theorem le_of_hangulComposite? {a b n : Nat} (h : hangulComposite? a b = some n) :
    hangulBase ≤ n := by
  rw [hangulComposite?] at h
  split at h
  · obtain rfl := Option.some.inj h
    exact Nat.le_add_right _ _
  · split at h
    · next ha =>
      obtain rfl := Option.some.inj h
      simp only [Bool.and_eq_true, decide_eq_true_eq] at ha
      exact Nat.le_trans ha.1.1.1.1 (Nat.le_add_right _ _)
    · cases h

/-- What is put together from two characters is not plain. -/
theorem not_isPlain_of_composite? {a b n : Nat} (h : composite? a b = some n) :
    isPlain n = false := by
  rw [composite?] at h
  split at h
  · next m hangul =>
    obtain rfl := Option.some.inj h
    rw [Bool.eq_false_iff]
    intro hplain
    have hbase : 0xAC00 ≤ m := le_of_hangulComposite? hangul
    have hcases := isPlain_cases hplain
    omega
  · split at h
    · next entry hentry =>
      obtain rfl := Option.some.inj h
      have hhead := composites_not_plain _ (List.mem_of_find?_eq_some hentry)
      simpa using hhead
    · cases h

/-- The characters that both ways to write a mu share with ASCII: they are not taken apart. -/
theorem decomposeFully_of_isPlain {n : Nat} (h : isPlain n = true) (hn : n ≠ 0x3A9) :
    decomposeFully 8 n = [n] := by
  have hhangul : hangulParts? n = none := by
    have hcases := isPlain_cases h
    have hbase : hangulBase = 0xAC00 := rfl
    rw [hangulParts?, if_neg]
    simp only [Bool.and_eq_true, decide_eq_true_eq]
    omega
  have hparts : parts? n = none := by
    rcases isPlain_cases h with hless | hcase
    · rw [parts?, if_pos hless.2]
    · obtain rfl := hcase.resolve_left hn
      have hcomposite : compositeTable.find? (fun entry ↦ entry.head? == some 0x3BC) = none := by
        refine List.find?_eq_none.mpr fun entry hentry hhead ↦ ?_
        have hplain := composites_not_plain entry hentry
        rw [beq_iff_eq] at hhead
        rw [hhead] at hplain
        exact absurd hplain (by decide)
      have honeWay : oneWayTable.find? (fun entry ↦ entry.head? == some 0x3BC) = none := by
        refine List.find?_eq_none.mpr fun entry hentry hhead ↦ ?_
        have hmu := oneWay_not_mu entry hentry
        rw [beq_iff_eq] at hhead
        rw [hhead] at hmu
        exact absurd hmu (by decide)
      rw [parts?, if_neg (by decide)]
      simp only [hcomposite, honeWay]
      rfl
  simp only [decomposeFully, hhangul, hparts]

/-! ## Plain canonical forms -/

/-- Where only plain characters come out, nothing has been put together. -/
theorem composeFrom_eq {starter : Nat} {marks ns : List Nat}
    (h : ∀ n ∈ composeFrom starter marks ns, isPlain n = true) :
    composeFrom starter marks ns = starter :: (marks.reverse ++ ns) := by
  fun_induction composeFrom starter marks ns with
  | case1 => simp
  | case2 starter marks n ns k free joined hjoined ih =>
    have hcomposite : composite? starter n = some joined := by
      split at hjoined
      · exact hjoined
      · cases hjoined
    have hplain := h joined (by rw [ih h]; exact List.mem_cons_self)
    rw [not_isPlain_of_composite? hcomposite] at hplain
    cases hplain
  | case3 starter marks n ns k free hnone hstart ih =>
    rw [ih fun m hm ↦ h m (List.mem_append_right _ hm)]
    simp
  | case4 starter marks n ns k free hnone hmark ih =>
    rw [ih h]
    simp

theorem compose_eq {ns : List Nat} (h : ∀ n ∈ compose ns, isPlain n = true) : compose ns = ns := by
  induction ns with
  | nil => rfl
  | cons n ns ih =>
    rw [compose] at h ⊢
    split at h
    · next hstart =>
      rw [if_pos hstart, composeFrom_eq h]
      simp
    · next hmark =>
      have hplain := h n List.mem_cons_self
      exact absurd (combiningClass_of_isPlain hplain) hmark

theorem mem_insertMark (n : Nat) (ns : List Nat) : n ∈ insertMark n ns := by
  induction ns with
  | nil => exact List.mem_singleton_self n
  | cons m ns ih =>
    rw [insertMark]
    split
    · exact List.mem_cons_of_mem _ ih
    · exact List.mem_cons_self

theorem reorder_eq {ns : List Nat} (h : ∀ n ∈ reorder ns, isPlain n = true) : reorder ns = ns := by
  induction ns with
  | nil => rfl
  | cons n ns ih =>
    rw [reorder] at h ⊢
    split at h
    · next hstart =>
      rw [if_pos hstart, ih fun m hm ↦ h m (List.mem_cons_of_mem _ hm)]
    · next hmark =>
      exact absurd (combiningClass_of_isPlain (h n (mem_insertMark n _))) hmark

/-- Code points that stand for no character do not come out plain. -/
theorem toNat_ofNat_of_isPlain {n : Nat} (h : isPlain (Char.ofNat n).toNat = true) :
    (Char.ofNat n).toNat = n := by
  by_cases hn : n.isValidChar
  · rw [Char.ofNat, dif_pos hn]
    rfl
  · rw [Char.ofNat, dif_neg hn] at h
    exact absurd h (by decide)

theorem decompose_eq {ns : List Nat} (h : ∀ n ∈ ns, decomposeFully 8 n = [n]) :
    decompose ns = ns := by
  rw [decompose]
  induction ns with
  | nil => rfl
  | cons n ns ih =>
    rw [List.flatMap_cons, h n List.mem_cons_self, ih fun m hm ↦ h m (List.mem_cons_of_mem _ hm)]
    rfl

/-- **A text of a plain canonical form decomposes into that form.** -/
theorem decompose_of_canonical {s : String}
    (h : ∀ c ∈ (canonical s).toList, isPlain c.toNat = true) :
    decompose (s.toList.map Char.toNat) = (canonical s).toList.map Char.toNat := by
  rw [canonical] at h ⊢
  split at h
  · next hless =>
    rw [if_pos hless]
    refine decompose_eq fun n hn ↦ ?_
    obtain ⟨c, hc, rfl⟩ := List.mem_map.mp hn
    have hbound := List.all_eq_true.mp hless c hc
    rw [decide_eq_true_eq] at hbound
    exact decomposeFully_of_isPlain (h c hc) (by omega)
  · next hless =>
    rw [if_neg hless]
    rw [String.toList_ofList] at h ⊢
    generalize s.toList.map Char.toNat = ns at h ⊢
    have hcode : ∀ n ∈ compose (reorder (decompose ns)), (Char.ofNat n).toNat = n := fun n hn ↦
      toNat_ofNat_of_isPlain (h _ (List.mem_map_of_mem hn))
    have hplain : ∀ n ∈ compose (reorder (decompose ns)), isPlain n = true := fun n hn ↦ by
      have hchar := h _ (List.mem_map_of_mem hn)
      rwa [hcode n hn] at hchar
    have hself : (compose (reorder (decompose ns))).map (Char.toNat ∘ Char.ofNat) =
        compose (reorder (decompose ns)) :=
      (List.map_congr_left (g := id) hcode).trans (List.map_id _)
    rw [List.map_map, hself]
    have hcompose := compose_eq hplain
    rw [hcompose] at hplain ⊢
    exact (reorder_eq hplain).symm

end Text
end Mensura
