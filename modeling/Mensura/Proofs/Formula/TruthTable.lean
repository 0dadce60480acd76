import Mathlib.Algebra.Group.Nat.Defs
import Mathlib.Data.List.Nodup
import Mensura.Formula.Table
import Mensura.Proofs.Formula.Precedence
import Mensura.Proofs.Outcome

/-!
# What a truth table shows

A truth table has a row for each assignment of its arguments.  The row number, written in binary,
is the assignment; behind it stands, for each formula, its truth value in classical logic or the
name that is missing.

* `rows_eq`: the rows are the binary numbers in order.
* `assignment_eq_some_iff`: with distinct arguments, a name has the value in its column.
* `eval_eq_ok`, `eval_eq_error`: evaluation finds the classical truth value, or the leftmost name
  without a value, wherever it stands.
* `table_complete`: the table as a whole.
-/

set_option autoImplicit false

namespace Mensura

/-! ## Classical truth -/

/-- What a connective says of two statements. -/
def Connective.Holds : Connective → Prop → Prop → Prop
  | equals, a, b => a ↔ b
  | implies, a, b => a → b
  | or, a, b => a ∨ b
  | and, a, b => a ∧ b

theorem Connective.holds_iff (op : Connective) (a b : Bool) :
    op.holds a b = true ↔ op.Holds (a = true) (b = true) := by
  cases op <;> cases a <;> cases b <;> simp [holds, Holds]

namespace Formula

/-- What a formula says if its propositions say something. -/
def Holds (v : String → Prop) : Formula → Prop
  | prop name => v name
  | paren inner => inner.Holds v
  | not operand => ¬operand.Holds v
  | binary op left right => op.Holds (left.Holds v) (right.Holds v)

/-- The column of a name shows that it is true. -/
def IsTrue (args : List String) (row : List Bool) (name : String) : Prop :=
  (name, true) ∈ args.zip row

/-- What the cell of a formula shows. -/
inductive Shows (args : List String) (row : List Bool) (f : Formula) : String → Prop
  | isTrue : f.names ⊆ args → f.Holds (IsTrue args row) → Shows args row f "T"
  | isFalse : f.names ⊆ args → ¬f.Holds (IsTrue args row) → Shows args row f "F"
  | undefined {before after : List String} {name : String} : f.names = before ++ name :: after →
    before ⊆ args → name ∉ args → Shows args row f ("Undefined symbol '" ++ name ++ "'")

/-! ## Rows -/

/-- The last `n` binary digits of a number, the highest first. -/
def bits (n k : Nat) : List Bool :=
  (List.range n).reverse.map k.testBit

theorem bits_succ (n k : Nat) : bits (n + 1) k = k.testBit n :: bits n k := by
  rw [bits, List.range_succ, List.reverse_append]
  rfl

@[simp] theorem length_bits (n k : Nat) : (bits n k).length = n := by
  simp [bits]

/-- A higher digit is none of the last ones. -/
theorem bits_two_pow_add (n k : Nat) : bits n (2 ^ n + k) = bits n k := by
  refine List.map_congr_left fun i hi ↦ ?_
  rw [List.mem_reverse, List.mem_range] at hi
  rw [Nat.testBit_two_pow_add_gt hi]

/-- **Rows count in binary.** -/
theorem rows_eq (n : Nat) : rows n = (List.range (2 ^ n)).map (bits n) := by
  induction n with
  | zero => rfl
  | succ n ih =>
    have hlow : (rows n).map (false :: ·) = (List.range (2 ^ n)).map (bits (n + 1)) := by
      rw [ih, List.map_map]
      refine List.map_congr_left fun k hk ↦ ?_
      rw [bits_succ, Nat.testBit_lt_two_pow (List.mem_range.mp hk)]
      rfl
    have hhigh : (rows n).map (true :: ·) =
        ((List.range (2 ^ n)).map (2 ^ n + ·)).map (bits (n + 1)) := by
      rw [ih, List.map_map, List.map_map]
      refine List.map_congr_left fun k hk ↦ ?_
      rw [Function.comp, Function.comp, bits_succ, bits_two_pow_add, Nat.testBit_two_pow_add_eq,
        Nat.testBit_lt_two_pow (List.mem_range.mp hk)]
      rfl
    rw [rows, hlow, hhigh, ← List.map_append, ← List.range_add, ← Nat.two_mul, Nat.pow_succ,
      Nat.mul_comm]

/-! ## Assignments -/

variable {args : List String} {row : List Bool}

/-- The arguments have values, other names have none. -/
theorem exists_assignment_iff (hlength : args.length = row.length) {name : String} :
    (∃ b, assignment args row name = some b) ↔ name ∈ args := by
  conv_rhs => rw [← List.map_fst_zip (Nat.le_of_eq hlength)]
  rw [← Option.isSome_iff_exists, assignment, List.lookup_isSome_iff, List.mem_map]
  simp only [List.mem_reverse, beq_iff_eq, eq_comm (a := name)]

/-- **The value of a name is the one in its column**, if the arguments are distinct. -/
theorem assignment_eq_some_iff (hargs : args.Nodup) (hlength : args.length = row.length)
    {name : String} {b : Bool} :
    assignment args row name = some b ↔ (name, b) ∈ args.zip row := by
  have hmem {v : Bool} (h : assignment args row name = some v) : (name, v) ∈ args.zip row := by
    obtain ⟨before, after, hsplit, -⟩ := List.lookup_eq_some_iff.mp h
    exact List.mem_reverse.mp (hsplit ▸ List.mem_append_right _ List.mem_cons_self)
  refine ⟨hmem, fun h ↦ ?_⟩
  have hdistinct : ((args.zip row).map Prod.fst).Nodup := by
    rwa [List.map_fst_zip (Nat.le_of_eq hlength)]
  obtain ⟨v, hv⟩ := (exists_assignment_iff hlength).mpr (List.of_mem_zip h).1
  have hsame := List.inj_on_of_nodup_map hdistinct (hmem hv) h rfl
  rw [hv, (Prod.mk.inj hsame).2]

/-! ## Cells -/

variable {env : String → Option Bool}

/-- A formula whose names have values is true or false. -/
theorem eval_eq_ok {f : Formula} (h : ∀ name ∈ f.names, ∃ b, env name = some b) :
    ∃ b, f.eval env = .ok b ∧ (b = true ↔ f.Holds fun name ↦ env name = some true) := by
  induction f with
  | prop name =>
    obtain ⟨b, hb⟩ := h name (List.mem_singleton_self name)
    exact ⟨b, by rw [eval, hb], by rw [Holds, hb, Option.some_inj]⟩
  | paren inner ih => exact ih h
  | not operand ih =>
    obtain ⟨b, hb, hholds⟩ := ih h
    exact ⟨!b, by rw [eval, hb]; rfl, by rw [Holds, ← hholds]; simp⟩
  | binary op left right ihl ihr =>
    obtain ⟨a, ha, hleft⟩ := ihl fun n hn ↦ h n (List.mem_append_left _ hn)
    obtain ⟨b, hb, hright⟩ := ihr fun n hn ↦ h n (List.mem_append_right _ hn)
    exact ⟨op.holds a b, by rw [eval, ha, hb]; rfl, by rw [op.holds_iff, hleft, hright, Holds]⟩

/-- The leftmost name without a value is reported, whatever the truth value of the rest. -/
theorem eval_eq_error {f : Formula} {name : String}
    (h : f.names.find? (fun n ↦ (env n).isNone) = some name) :
    f.eval env = .error (.undefinedSymbol name) := by
  induction f with
  | prop n =>
    obtain rfl : n = name := List.mem_singleton.mp (List.mem_of_find?_eq_some h) |>.symm
    have hnone : env n = none := by simpa using List.find?_some h
    rw [eval, hnone]
  | paren inner ih => exact ih h
  | not operand ih =>
    rw [eval, ih h]
    rfl
  | binary op left right ihl ihr =>
    rw [names, List.find?_append, Option.or_eq_some_iff] at h
    rcases h with hleft | ⟨hleft, hright⟩
    · rw [eval, ihl hleft]
      rfl
    · -- the left operand has a truth value, so the right one is asked for its own
      obtain ⟨a, ha, -⟩ := eval_eq_ok fun n hn ↦ Option.ne_none_iff_exists'.mp
        (by simpa using List.find?_eq_none.mp hleft n hn)
      rw [eval, ha, ok_bind, ihr hright]
      rfl

/-- **A cell shows what the formula says of its row.** -/
theorem shows_cell (hargs : args.Nodup) (hlength : args.length = row.length) (f : Formula) :
    Shows args row f (cell (assignment args row) f) := by
  have hnone {name : String} : assignment args row name = none ↔ name ∉ args := by
    rw [← exists_assignment_iff hlength, ← Option.isSome_iff_exists, Option.not_isSome_iff_eq_none]
  have htrue : (fun name ↦ assignment args row name = some true) = IsTrue args row :=
    funext fun name ↦ propext (assignment_eq_some_iff hargs hlength)
  cases hfind : f.names.find? fun n ↦ (assignment args row n).isNone with
  | some name =>
    rw [cell, eval_eq_error hfind]
    obtain ⟨hname, before, after, hsplit, hbefore⟩ := List.find?_eq_some_iff_append.mp hfind
    refine .undefined hsplit (fun n hn ↦ ?_) (hnone.mp (by simpa using hname))
    exact (exists_assignment_iff hlength).mp (Option.isSome_iff_exists.mp
      (by simpa using hbefore n hn))
  | none =>
    have hnames : ∀ n ∈ f.names, ∃ b, assignment args row n = some b := fun n hn ↦
      Option.ne_none_iff_exists'.mp (by simpa using List.find?_eq_none.mp hfind n hn)
    have hsubset : f.names ⊆ args := fun n hn ↦ (exists_assignment_iff hlength).mp (hnames n hn)
    obtain ⟨b, hb, hholds⟩ := eval_eq_ok hnames
    rw [htrue] at hholds
    rw [cell, hb]
    cases b with
    | true => exact .isTrue hsubset (hholds.mp rfl)
    | false => exact .isFalse hsubset fun h ↦ nomatch hholds.mpr h

/-! ## The table -/

/-- **A truth table is complete and right.**  It has a line for each of the `2 ^ n` assignments of
`n` distinct arguments, in the order of their binary numbers, and shows there the assignment and
what each formula says of it. -/
theorem table_complete (hargs : args.Nodup) (formulas : List Formula) :
    ∃ data : List (List String),
      table args formulas = "\n".intercalate
        (["\\begin\x7bcenter\x7d", "\\begin\x7btabular\x7d\x7b" ++
            (String.join (List.replicate (args.length + formulas.length) "|c") ++ "|") ++ "\x7d",
          "\\hline", tableLine ((args ++ formulas.map latex).map inlineMath), "\\hline"] ++
        data.flatMap (fun cs ↦ [tableLine cs, "\\hline"]) ++
        ["\\end\x7btabular\x7d", "\\end\x7bcenter\x7d"]) ++ "\n" ∧
      data.length = 2 ^ args.length ∧
      ∀ k (hk : k < data.length), ∃ values,
        data[k] = (bits args.length k).map mark ++ values ∧
        List.Forall₂ (Shows args (bits args.length k)) formulas values := by
  refine ⟨(rows args.length).map (cells args formulas), ?_, by simp [rows_eq], fun k hk ↦ ?_⟩
  · have hform : String.join ((((args ++ formulas.map latex).map inlineMath)).map fun _ ↦ "|c") =
        String.join (List.replicate (args.length + formulas.length) "|c") := by
      rw [List.map_const', List.length_map, List.length_append, List.length_map]
    rw [table, tableLines, hform, List.flatMap_map]
  · have hrow : ((rows args.length).map (cells args formulas))[k] =
        cells args formulas (bits args.length k) := by
      simp [rows_eq]
    refine ⟨_, hrow, List.forall₂_map_right_iff.mpr (List.forall₂_same.mpr fun f _ ↦ ?_)⟩
    exact shows_cell hargs (length_bits args.length k).symm f

/-- The third of four rows, where the first argument is true and the second is not. -/
theorem table_complete_third_row : ["p", "q"].Nodup ∧ ∃ data : List (List String),
    data.length = 4 ∧ ∃ values, data[2]? = some ("T" :: "F" :: values) ∧
      List.Forall₂ (Shows ["p", "q"] [true, false])
        [.binary .implies (.prop "p") (.prop "q"), .binary .or (.prop "p") (.prop "r")] values := by
  have hargs : ["p", "q"].Nodup := by decide
  refine ⟨hargs, ?_⟩
  obtain ⟨data, -, hlength, hrows⟩ := table_complete hargs
    [.binary .implies (.prop "p") (.prop "q"), .binary .or (.prop "p") (.prop "r")]
  have hthird : 2 < data.length := hlength ▸ (by decide)
  obtain ⟨values, hrow, hvalues⟩ := hrows 2 hthird
  exact ⟨data, hlength, values, by rw [List.getElem?_eq_getElem hthird, hrow]; rfl, hvalues⟩

end Formula
end Mensura
