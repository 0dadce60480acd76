import Mathlib.Algebra.BigOperators.Finsupp.Basic
import Mensura.Proofs.UnitExpr.Total
import Mensura.Registry.Standard
import Mensura.Scalar.Binary64

/-!
# Units as products of powers of names

However a unit is nested, it comes to a product of powers of the names in it.  The exponent of a
name is the product of those it stands under, negated once for every quotient on whose right it
stands (`leaves`); a name that stands in several places comes to the sum of these exponents (`net`).

* `total_eq_sum`: what a unit amounts to is the sum over its leaves.
* `total_eq_of_net`: so it depends on the net exponents alone, not on order or grouping.
* `eval_flattened`: both said of the dimension and the power of ten of a unit that has a value.
-/

set_option autoImplicit false

namespace Mensura
namespace UnitExpr

/-- The names in a unit from left to right, each with the exponent it comes to if the unit stands
under the exponent `k`. -/
def leavesUnder : UnitExpr → (k : Int) → List (String × Int)
  | name text, k => [(text, k)]
  | pow u n, k => u.leavesUnder (k * n)
  | mul u v, k => u.leavesUnder k ++ v.leavesUnder k
  | div u v, k => u.leavesUnder k ++ v.leavesUnder (-k)

/-- The names in a unit from left to right, each with the exponent it comes to. -/
def leaves (u : UnitExpr) : List (String × Int) :=
  u.leavesUnder 1

/-- The exponent that a name comes to in all its places together; zero if it stands nowhere. -/
def net (u : UnitExpr) (text : String) : Int :=
  (u.leaves.map fun l ↦ if l.1 = text then l.2 else 0).sum

theorem leavesUnder_map_fst (u : UnitExpr) (k : Int) :
    (u.leavesUnder k).map Prod.fst = u.names := by
  induction u generalizing k with
  | name text => rfl
  | pow u n ih => exact ih (k * n)
  | mul u v ihu ihv => rw [leavesUnder, List.map_append, ihu, ihv, names]
  | div u v ihu ihv => rw [leavesUnder, List.map_append, ihu, ihv, names]

/-- The leaves are the names of the unit. -/
theorem mem_names_of_mem_leaves {u : UnitExpr} {l : String × Int} (h : l ∈ u.leaves) :
    l.1 ∈ u.names :=
  leavesUnder_map_fst u 1 ▸ List.mem_map_of_mem h

section Totals

variable {G : Type} [AddCommGroup G] (f : String → G)

theorem sum_leavesUnder (u : UnitExpr) (k : Int) :
    ((u.leavesUnder k).map fun l ↦ l.2 • f l.1).sum = k • u.total f := by
  induction u generalizing k with
  | name text => simp [leavesUnder, total]
  | pow u n ih => rw [leavesUnder, ih, total, mul_smul]
  | mul u v ihu ihv => rw [leavesUnder, List.map_append, List.sum_append, ihu, ihv, total, smul_add]
  | div u v ihu ihv =>
    rw [leavesUnder, List.map_append, List.sum_append, ihu, ihv, total, smul_sub, neg_smul,
      sub_eq_add_neg]

/-- **A unit amounts to the sum over its leaves.** -/
theorem total_eq_sum (u : UnitExpr) :
    u.total f = (u.leaves.map fun l ↦ l.2 • f l.1).sum := by
  rw [leaves, sum_leavesUnder, one_smul]

/-- A homomorphism may be applied to a unit or to the names in it. -/
theorem map_total {H : Type} [AddCommGroup H] (φ : G →+ H) (u : UnitExpr) :
    φ (u.total f) = u.total (fun name ↦ φ (f name)) := by
  induction u with
  | name text => rfl
  | pow u n ih => rw [total, map_zsmul, ih, total]
  | mul u v ihu ihv => rw [total, map_add, ihu, ihv, total]
  | div u v ihu ihv => rw [total, map_sub, ihu, ihv, total]

/-- The net exponents of a unit are what it amounts to in the free group on all names. -/
theorem total_single_apply (u : UnitExpr) (text : String) :
    u.total (fun name ↦ Finsupp.single name (1 : Int)) text = u.net text := by
  rw [← Finsupp.applyAddHom_apply, map_total, total_eq_sum, net]
  congr 1
  refine List.map_congr_left fun l _ ↦ ?_
  simp [Finsupp.single_apply]

/-- **Units with the same net exponents amount to the same**, whatever the names amount to. -/
theorem total_eq_of_net {u v : UnitExpr} (h : ∀ text, u.net text = v.net text) :
    u.total f = v.total f := by
  -- what the names amount to extends to a homomorphism from the free group on them
  let φ : (String →₀ Int) →+ G := Finsupp.liftAddHom fun name ↦ zmultiplesHom G (f name)
  have hφ (w : UnitExpr) : w.total f = φ (w.total fun name ↦ Finsupp.single name 1) := by
    rw [map_total]
    congr 1
    funext name
    simp [φ]
  have hfree : u.total (fun name ↦ Finsupp.single name (1 : Int)) =
      v.total (fun name ↦ Finsupp.single name 1) :=
    Finsupp.ext fun text ↦ by rw [total_single_apply, total_single_apply, h]
  rw [hφ u, hφ v, hfree]

end Totals

/-! ## Units with a value -/

section Values

variable {α : Type} [Scalar α]

/-- The unit of a name, or that of a plain number if the name has none. -/
def unitOf (resolve : String → Result (PhysUnit α)) (text : String) : PhysUnit α :=
  (resolve text).toOption.getD PhysUnit.one

/-- The leaves of a unit that has a value have values. -/
theorem resolve_unitOf {resolve : String → Result (PhysUnit α)} {e : UnitExpr} {w : PhysUnit α}
    (h : e.eval resolve = .ok w) : ∀ l ∈ e.leaves, resolve l.1 = .ok (unitOf resolve l.1) := by
  intro l hl
  obtain ⟨u, hu⟩ := resolve_of_eval h l.1 (mem_names_of_mem_leaves hl)
  rw [unitOf, hu]
  rfl

theorem nameSize_eq (resolve : String → Result (PhysUnit α)) (text : String) :
    nameSize resolve text = (unitOf resolve text).size := by
  rw [nameSize, unitOf]
  cases resolve text with
  | ok u => rfl
  | error _ => exact (Prod.ext (funext Dimension.exponent_one) rfl : PhysUnit.one.size = 0).symm

/-- The exponent of a base dimension in a unit that has a value is what those in the units of its
names amount to. -/
theorem exponent_eq_total {resolve : String → Result (PhysUnit α)} {e : UnitExpr} {w : PhysUnit α}
    (h : e.eval resolve = .ok w) (b : Base) :
    w.dim.exponent b = e.total fun text ↦ (unitOf resolve text).dim.exponent b := by
  let φ : (Base → Rat) × Int →+ Rat := (Pi.evalAddMonoidHom _ b).comp (AddMonoidHom.fst _ _)
  calc w.dim.exponent b = φ w.size := rfl
    _ = e.total fun text ↦ φ (nameSize resolve text) := by rw [eval_size h, map_total]
    _ = e.total fun text ↦ (unitOf resolve text).dim.exponent b := by
      simp only [nameSize_eq]
      rfl

/-- So is its power of ten. -/
theorem decExp_eq_total {resolve : String → Result (PhysUnit α)} {e : UnitExpr} {w : PhysUnit α}
    (h : e.eval resolve = .ok w) :
    w.decExp = e.total fun text ↦ (unitOf resolve text).decExp := by
  let φ : (Base → Rat) × Int →+ Int := AddMonoidHom.snd _ _
  calc w.decExp = φ w.size := rfl
    _ = e.total fun text ↦ φ (nameSize resolve text) := by rw [eval_size h, map_total]
    _ = e.total fun text ↦ (unitOf resolve text).decExp := by
      simp only [nameSize_eq]
      rfl

end Values
end UnitExpr

namespace Registry

open UnitExpr

variable {α : Type} [Scalar α]

/-- **Evaluating a unit is flattening it.**  The dimension and the power of ten of a unit that has a
value are the sums over its leaves, each counted as often as its exponent says.  So two units with a
value and with the same net exponents agree in both. -/
theorem eval_flattened (r : Registry α) :
    (∀ (e : UnitExpr) (w : PhysUnit α), r.eval e = .ok w → ∃ unit : String → PhysUnit α,
      (∀ l ∈ e.leaves, r.resolve l.1 = .ok (unit l.1)) ∧
      (∀ b, w.dim.exponent b = (e.leaves.map fun l ↦ l.2 * (unit l.1).dim.exponent b).sum) ∧
      w.decExp = (e.leaves.map fun l ↦ l.2 * (unit l.1).decExp).sum) ∧
    ∀ (e f : UnitExpr) (w v : PhysUnit α), r.eval e = .ok w → r.eval f = .ok v →
      (∀ text, e.net text = f.net text) → w.dim = v.dim ∧ w.decExp = v.decExp := by
  refine ⟨fun e w h ↦ ⟨unitOf r.resolve, resolve_unitOf h, fun b ↦ ?_, ?_⟩, ?_⟩
  · rw [exponent_eq_total h b, total_eq_sum]
    simp only [zsmul_eq_mul]
  · rw [decExp_eq_total h, total_eq_sum]
    simp only [smul_eq_mul]
  · intro e f w v hw hv hnet
    rw [← PhysUnit.size_eq_iff, eval_size hw, eval_size hv, total_eq_of_net _ hnet]

/-- The units `(km/s)^2 (m/km)^0` and `(km km)/(s s)` have the same net exponents. -/
theorem eval_flattened_speed_squared :
    ∃ (e f : UnitExpr) (w v : PhysUnit Float),
      e = .mul (.pow (.div (.name "km") (.name "s")) 2) (.pow (.div (.name "m") (.name "km")) 0) ∧
      f = .div (.mul (.name "km") (.name "km")) (.mul (.name "s") (.name "s")) ∧
      standard.eval e = .ok w ∧ standard.eval f = .ok v ∧ (∀ text, e.net text = f.net text) ∧
      e.leaves = [("km", 2), ("s", -2), ("m", 0), ("km", 0)] ∧
      (∃ km s m : PhysUnit Float, standard.resolve "km" = .ok km ∧ standard.resolve "s" = .ok s ∧
        standard.resolve "m" = .ok m ∧ w.decExp = 2 * km.decExp - 2 * s.decExp) ∧
      w.dim = v.dim ∧ w.decExp = v.decExp := by
  let e : UnitExpr :=
    .mul (.pow (.div (.name "km") (.name "s")) 2) (.pow (.div (.name "m") (.name "km")) 0)
  let f : UnitExpr := .div (.mul (.name "km") (.name "km")) (.mul (.name "s") (.name "s"))
  obtain ⟨w, hw⟩ := exists_eq_ok
    (by decide +kernel : ((standard : Registry Float).eval e).isOk = true)
  obtain ⟨v, hv⟩ := exists_eq_ok
    (by decide +kernel : ((standard : Registry Float).eval f).isOk = true)
  have hleaves : e.leaves = [("km", 2), ("s", -2), ("m", 0), ("km", 0)] := rfl
  have hleaves' : f.leaves = [("km", 1), ("km", 1), ("s", -1), ("s", -1)] := rfl
  have hnet : ∀ text, e.net text = f.net text := by
    intro text
    simp only [net, hleaves, hleaves', List.map_cons, List.map_nil, List.sum_cons, List.sum_nil]
    split_ifs <;> rfl
  obtain ⟨unit, hunit, -, hexp⟩ := (eval_flattened standard).1 e w hw
  refine ⟨e, f, w, v, rfl, rfl, hw, hv, hnet, hleaves, ⟨unit "km", unit "s", unit "m", ?_⟩,
    (eval_flattened standard).2 e f w v hw hv hnet⟩
  rw [hleaves] at hunit hexp
  refine ⟨hunit ("km", 2) (by simp), hunit ("s", -2) (by simp), hunit ("m", 0) (by simp), ?_⟩
  simp only [List.map_cons, List.map_nil, List.sum_cons, List.sum_nil] at hexp
  omega

end Registry
end Mensura
