import Mensura.Formula

/-!
# Truth tables

All assignments of the arguments, from all false to all true with the first argument as the
slowest, and the truth values of formulas under each.  A formula with a proposition that is no
argument shows the error instead.
-/

set_option autoImplicit false

namespace Mensura
namespace Formula

/-- All rows of `n` truth values, in counting order. -/
def rows : Nat → List (List Bool)
  | 0 => [[]]
  | n + 1 => (rows n).map (false :: ·) ++ (rows n).map (true :: ·)

/-- The assignment of a row.  Of two arguments with one name, the last counts. -/
def assignment (args : List String) (row : List Bool) (name : String) : Option Bool :=
  (args.zip row).reverse.lookup name

/-- A truth value in a cell. -/
def mark (b : Bool) : String :=
  if b then "T" else "F"

/-- The cell of a formula. -/
def cell (env : String → Option Bool) (f : Formula) : String :=
  match f.eval env with
  | .ok b => mark b
  | .error e => e.message

/-- The cells of a row. -/
def cells (args : List String) (formulas : List Formula) (row : List Bool) : List String :=
  row.map mark ++ formulas.map (cell (assignment args row))

/-- A line of cells. -/
def tableLine (cs : List String) : String :=
  " & ".intercalate cs ++ " \\\\"

/-- A text as inline mathematics. -/
def inlineMath (s : String) : String :=
  "$" ++ s ++ "$"

/-- The lines of a truth table. -/
def tableLines (args : List String) (formulas : List Formula) : List String :=
  let columns := (args ++ formulas.map latex).map inlineMath
  let form := String.join (columns.map fun _ ↦ "|c") ++ "|"
  ["\\begin\x7bcenter\x7d", "\\begin\x7btabular\x7d\x7b" ++ form ++ "\x7d", "\\hline",
    tableLine columns, "\\hline"] ++
  (rows args.length).flatMap (fun row ↦ [tableLine (cells args formulas row), "\\hline"]) ++
  ["\\end\x7btabular\x7d", "\\end\x7bcenter\x7d"]

/-- The truth table of formulas over arguments, in LaTeX. -/
def table (args : List String) (formulas : List Formula) : String :=
  "\n".intercalate (tableLines args formulas) ++ "\n"

end Formula
end Mensura
