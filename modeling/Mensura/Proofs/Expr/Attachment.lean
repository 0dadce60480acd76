import Mensura.Proofs.Expr.UnitRow
import Mensura.Scalar.Binary64

/-!
# Units behind values, and units alone

Two readers know the text of a unit: that of unit expressions, and that of expressions, which meets
the unit behind a value.  They agree on rows of names: what `1 u` attaches to the one is the unit
expression that `u` is read as by itself (`ofText_one_row`), and where the one reader or the
registry fails, so does the other.
-/

set_option autoImplicit false

namespace Mensura
namespace Expr

open Token UnitExpr

section Reading

variable {α : Type} [Scalar α] {r : Registry α}

/-- A value, and a unit behind it up to the end. -/
theorem ofTokens_attach {t stop : Token} {value : Expr α} {ts : List Token}
    {plan : Except Fault UnitExpr} (ht : t.kind = .number) (hvalue : literalOf t = .ok value)
    (hstop : stop.kind = .stop) (hstarts : startsUnit (ts ++ [stop]) = true)
    (hunit : unitExpr (ts ++ [stop]) = leaving plan [stop]) :
    ofTokens r (t :: (ts ++ [stop])) = do
      let plan ← (liftM plan : Result UnitExpr)
      let unit ← r.eval plan
      return unary (.attach unit plan.label) value := by
  have hfuel : fuelFor (t :: (ts ++ [stop])) = 3 * (ts ++ [stop]).length + 3 + 3 := by
    rw [fuelFor, List.length_cons, Nat.mul_add]
  have hread : expression r (fuelFor (t :: (ts ++ [stop]))) 0 (t :: (ts ++ [stop])) = do
      let plan ← (liftM plan : Result UnitExpr)
      let unit ← r.eval plan
      return (unary (.attach unit plan.label) value, [stop]) := by
    rw [hfuel, expression, operand]
    simp only [peek_cons, ht, if_true, hvalue, List.drop_succ_cons, List.drop_zero, pure_eq_ok,
      ok_bind]
    rw [climb, if_pos hstarts, if_neg (by decide), hunit, leaving_bind]
    simp only [(Ends.stop hstop).climb]
  rw [ofTokens, hread]
  simp only [bind_assoc, pure_eq_ok, ok_bind, peek_cons, hstop, if_true]

end Reading

/-- **A unit behind a value is the unit by itself.** -/
theorem ofText_one_row (r : Registry Float) (row : Row) (h : row.Named IsLetters) :
    ofText r ("1 " ++ row.text) = do
      let plan ← UnitExpr.ofText row.text
      let unit ← r.eval plan
      return unary (.attach unit plan.label) (literal (Quantity.ofScalar (Scalar.ofNat 1))) := by
  have hnames : row.Named IsUnitName :=
    ⟨isUnitName_of_isLetters h.first, fun x hx ↦ isUnitName_of_isLetters (h.more x hx)⟩
  obtain ⟨ts, hts, hread⟩ := exists_row_tokens hnames 2 true
  have hone : IsNumeral ['1'] := isNumeral_digits (by simp) (by simp; decide)
  have hcuts : Cuts 0 false ("1 " ++ row.text).toList (⟨.number, "1", 0, false⟩ :: ts) := by
    have htext : ("1 " ++ row.text).toList = ['1'] ++ ' ' :: row.chars := by
      simp [String.toList_append, Row.text]
    rw [htext]
    exact hone.cuts.append hts.blank (separated_cons (by decide))
  obtain ⟨hstarts, hunit⟩ := hread [⟨.stop, "", ("1 " ++ row.text).toList.length, false⟩]
    (endsUnit_of_closes (.inl rfl))
  rw [ofText, hcuts.ofText, ofText_row row h]
  exact ofTokens_attach rfl rfl rfl hstarts hunit

/-- The row `m/s^2`. -/
def accelerationRow : Row :=
  ⟨⟨['m'], none⟩, [(.per, ⟨['s'], some (.digit '2' rfl)⟩)]⟩

theorem ofText_one_row_acceleration : accelerationRow.Named IsLetters ∧ ∃ u,
    (Registry.standard : Registry Float).eval (.div (.name "m") (.pow (.name "s") 2)) = .ok u ∧
      ofText Registry.standard ("1 " ++ accelerationRow.text) =
        .ok (unary (.attach u (UnitExpr.div (.name "m") (.pow (.name "s") 2)).label)
          (literal (Quantity.ofScalar (Scalar.ofNat 1)))) := by
  have hnames : accelerationRow.Named IsLetters :=
    ⟨.single (by decide), List.forall_mem_singleton.mpr (.single (by decide))⟩
  obtain ⟨u, hu⟩ := exists_eq_ok (by decide +kernel :
    ((Registry.standard : Registry Float).eval (.div (.name "m") (.pow (.name "s") 2))).isOk = true)
  have hplan : UnitExpr.ofText accelerationRow.text =
      .ok (.div (.name "m") (.pow (.name "s") 2)) := by rfl
  refine ⟨hnames, u, hu, ?_⟩
  rw [ofText_one_row Registry.standard accelerationRow hnames, hplan, ok_bind, hu]
  rfl

end Expr
end Mensura
