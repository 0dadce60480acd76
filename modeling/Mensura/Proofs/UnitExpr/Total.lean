import Mathlib.Algebra.Group.Pi.Basic
import Mathlib.Algebra.Group.Prod
import Mathlib.Algebra.Ring.Rat
import Mathlib.Tactic.Module
import Mensura.Proofs.UnitExpr.Names
import Mensura.Proofs.UnitExpr.Shown

/-!
# What a unit amounts to

Where products add, quotients subtract and powers multiply, a unit amounts to what its names do
(`total`).  Dimensions and powers of ten are of that kind: `eval_size` says so of units that have a
value.

The label of a unit shows one that may amount to something else.  `hidden` is the difference, and
comes from the powers of products alone: of `(m s)^2` the label hides a metre, as it shows `m s^2`.

* `total_eq`: a unit amounts to what its label shows and what it hides.
* `hidden_of_legible`: nothing is hidden if every power is one of a single factor.
-/

set_option autoImplicit false

namespace Mensura
namespace UnitExpr

/-! ## Names -/

theorem names_raised (u : UnitExpr) (n : Int) : (raised u n).names = u.names := by
  cases u <;> rfl

theorem names_beside (u v : UnitExpr) : (beside u v).names = u.names ++ v.names := by
  induction v with
  | mul v w ihv _ => rw [beside, names, ihv, names, List.append_assoc]
  | _ => rfl

/-- A label shows all names in their order. -/
@[simp] theorem names_shown (u : UnitExpr) : u.shown.names = u.names := by
  induction u with
  | name text => rfl
  | pow u n ih => rw [shown, names_raised, ih, names]
  | mul u v ihu ihv => rw [shown, names_beside, ihu, ihv, names]
  | div u v ihu ihv => rw [shown, names, ihu, ihv, names]

/-! ## Totals -/

section Totals

variable {G : Type} [AddCommGroup G] (f : String → G)

/-- What a unit amounts to, given what each name amounts to. -/
def total : UnitExpr → G
  | name text => f text
  | pow u n => n • u.total
  | mul u v => u.total + v.total
  | div u v => u.total - v.total

/-- What stands in front of the last factor of a product. -/
def front : UnitExpr → G
  | mul u _ => u.total f
  | _ => 0

/-- What the label of a unit hides: a power of a product raises the last factor only. -/
def hidden : UnitExpr → G
  | name _ => 0
  | pow u n => n • u.hidden + (n - 1) • u.shown.front f
  | mul u v => u.hidden + v.hidden
  | div u v => u.hidden - v.hidden

theorem total_raised (u : UnitExpr) (n : Int) :
    (raised u n).total f = n • u.total f - (n - 1) • u.front f := by
  cases u with
  | mul u v =>
    simp only [raised, total, front]
    module
  | _ => simp [raised, total, front]

theorem total_beside (u v : UnitExpr) : (beside u v).total f = u.total f + v.total f := by
  induction v with
  | mul v w ihv _ => rw [beside, total, ihv, total, add_assoc]
  | _ => rfl

/-- **A unit amounts to what its label shows and what it hides.** -/
theorem total_eq (u : UnitExpr) : u.total f = u.shown.total f + u.hidden f := by
  induction u with
  | name text => simp [shown, hidden]
  | pow u n ih =>
    rw [total, ih, shown, total_raised, hidden]
    module
  | mul u v ihu ihv =>
    rw [total, ihu, ihv, shown, total_beside, hidden, add_add_add_comm]
  | div u v ihu ihv =>
    rw [total, ihu, ihv, shown, total, hidden, add_sub_add_comm]

/-- Units that differ in spelling amount to the same if their names do. -/
theorem total_eq_of_respelled {u v : UnitExpr}
    (hf : ∀ s ∈ u.names, ∀ t ∈ v.names, s.toList.map respell = t.toList.map respell → f s = f t)
    (h : u.respelled = v.respelled) : u.total f = v.total f := by
  induction u generalizing v with
  | name s =>
    cases v with
    | name t =>
      refine hf s (List.mem_singleton_self s) t (List.mem_singleton_self t) ?_
      simpa only [respelled, name.injEq, String.ofList_inj] using h
    | _ => simp [respelled] at h
  | pow u n ih =>
    cases v with
    | pow v k =>
      obtain ⟨hbase, rfl⟩ := by simpa [respelled] using h
      rw [total, total, ih (v := v) hf hbase]
    | _ => simp [respelled] at h
  | mul u₁ u₂ ih₁ ih₂ =>
    cases v with
    | mul v₁ v₂ =>
      obtain ⟨hleft, hright⟩ := by simpa [respelled] using h
      rw [total, total,
        ih₁ (fun s hs t ht ↦ hf s (List.mem_append_left _ hs) t (List.mem_append_left _ ht)) hleft,
        ih₂ (fun s hs t ht ↦ hf s (List.mem_append_right _ hs) t (List.mem_append_right _ ht))
          hright]
    | _ => simp [respelled] at h
  | div u₁ u₂ ih₁ ih₂ =>
    cases v with
    | div v₁ v₂ =>
      obtain ⟨hleft, hright⟩ := by simpa [respelled] using h
      rw [total, total,
        ih₁ (fun s hs t ht ↦ hf s (List.mem_append_left _ hs) t (List.mem_append_left _ ht)) hleft,
        ih₂ (fun s hs t ht ↦ hf s (List.mem_append_right _ hs) t (List.mem_append_right _ ht))
          hright]
    | _ => simp [respelled] at h

end Totals

/-! ## Labels that hide nothing -/

/-- A label shows a single factor, perhaps raised to powers. -/
def Single : UnitExpr → Prop
  | pow u _ => u.Single
  | mul _ _ => False
  | _ => True

/-- Every power is one of a single factor, or the first power of a product. -/
def Legible : UnitExpr → Prop
  | name _ => True
  | pow u n => u.Legible ∧ (u.Single ∨ n = 1)
  | mul u v => u.Legible ∧ v.Legible
  | div u v => u.Legible ∧ v.Legible

theorem Single.raised {u : UnitExpr} (h : u.Single) (n : Int) : (u.raised n).Single := by
  cases u with
  | mul u v => exact h.elim
  | _ => exact h

theorem Single.shown {u : UnitExpr} (h : u.Single) : u.shown.Single := by
  induction u with
  | name text => trivial
  | pow u n ih => exact (ih h).raised n
  | mul u v => exact h.elim
  | div u v => trivial

theorem Single.front_eq {G : Type} [AddCommGroup G] (f : String → G) {u : UnitExpr}
    (h : u.Single) : u.front f = 0 := by
  cases u with
  | mul u v => exact h.elim
  | _ => rfl

/-- **A legible label hides nothing.** -/
theorem hidden_of_legible {G : Type} [AddCommGroup G] (f : String → G) {u : UnitExpr}
    (h : u.Legible) : u.hidden f = 0 := by
  induction u with
  | name text => rfl
  | pow u n ih =>
    obtain ⟨hbase, hsingle | rfl⟩ := h
    · rw [hidden, ih hbase, hsingle.shown.front_eq, smul_zero, smul_zero, add_zero]
    · rw [hidden, ih hbase, smul_zero, sub_self, zero_smul, add_zero]
  | mul u v ihu ihv => rw [hidden, ihu h.1, ihv h.2, add_zero]
  | div u v ihu ihv => rw [hidden, ihu h.1, ihv h.2, sub_zero]

end UnitExpr

/-! ## Dimensions and powers of ten -/

namespace PhysUnit

variable {α : Type} [Scalar α] {u v w : PhysUnit α}

/-- The exponents of a unit: those of its base dimensions, and that of its power of ten. -/
def size (u : PhysUnit α) : (Base → Rat) × Int :=
  (u.dim.exponent, u.decExp)

theorem size_eq_iff : u.size = v.size ↔ u.dim = v.dim ∧ u.decExp = v.decExp := by
  rw [size, size, Prod.mk.injEq]
  refine and_congr_left fun _ ↦ ⟨fun h ↦ Dimension.ext_exponent (congrFun h), ?_⟩
  exact fun h ↦ congrArg Dimension.exponent h

theorem ofParts_eq_ok {d : Dimension} {e : Int} {m : α} (h : ofParts d e m = .ok w) :
    w.dim = d ∧ w.decExp = e := by
  rw [ofParts] at h
  split at h
  · cases h
    exact ⟨rfl, rfl⟩
  · cases h

theorem mul_size (h : u.mul v = .ok w) : w.size = u.size + v.size := by
  obtain ⟨hdim, hexp⟩ := ofParts_eq_ok h
  rw [size, hdim, hexp]
  exact Prod.ext (funext fun x ↦ Dimension.exponent_mul _ _ x) rfl

theorem div_size (h : u.div v = .ok w) : w.size = u.size - v.size := by
  obtain ⟨hdim, hexp⟩ := ofParts_eq_ok h
  rw [size, hdim, hexp]
  exact Prod.ext (funext fun x ↦ Dimension.exponent_div _ _ x) rfl

theorem pow_size {n : Int} (h : u.pow n = .ok w) : w.size = n • u.size := by
  rw [pow] at h
  split at h
  · next hn =>
    split at h
    · next hone =>
      cases h
      subst hn
      rw [zero_smul]
      exact Prod.ext (funext fun x ↦ Dimension.exponent_one x) rfl
    · obtain ⟨_, _, h⟩ := bind_eq_ok.mp h
      cases h
  · split at h
    · obtain ⟨hdim, hexp⟩ := ofParts_eq_ok h
      rw [size, hdim, hexp]
      refine Prod.ext (funext fun x ↦ ?_) ?_
      · simp [size, mul_comm]
      · simp [size, mul_comm]
    · obtain ⟨_, _, h⟩ := bind_eq_ok.mp h
      obtain ⟨_, _, h⟩ := bind_eq_ok.mp h
      cases h

end PhysUnit

namespace UnitExpr

variable {α : Type} [Scalar α] {resolve : String → Result (PhysUnit α)}

/-- The exponents of the unit of a name; a name of no unit has none. -/
def nameSize (resolve : String → Result (PhysUnit α)) (text : String) : (Base → Rat) × Int :=
  match resolve text with
  | .ok u => u.size
  | .error _ => 0

/-- Every name in a unit with a value has one. -/
theorem resolve_of_eval {e : UnitExpr} {w : PhysUnit α} (h : e.eval resolve = .ok w) :
    ∀ text ∈ e.names, ∃ u, resolve text = .ok u := by
  induction e generalizing w with
  | name text => simpa [names] using ⟨w, h⟩
  | pow u n ih =>
    obtain ⟨u', hu, -⟩ := bind_eq_ok.mp h
    exact ih hu
  | mul u v ihu ihv =>
    obtain ⟨u', hu, h⟩ := bind_eq_ok.mp h
    obtain ⟨v', hv, -⟩ := bind_eq_ok.mp h
    exact List.forall_mem_append.mpr ⟨ihu hu, ihv hv⟩
  | div u v ihu ihv =>
    obtain ⟨u', hu, h⟩ := bind_eq_ok.mp h
    obtain ⟨v', hv, -⟩ := bind_eq_ok.mp h
    exact List.forall_mem_append.mpr ⟨ihu hu, ihv hv⟩

/-- **The exponents of a unit are what those of its names amount to.** -/
theorem eval_size {e : UnitExpr} {w : PhysUnit α} (h : e.eval resolve = .ok w) :
    w.size = e.total (nameSize resolve) := by
  induction e generalizing w with
  | name text => rw [total, nameSize, show resolve text = .ok w from h]
  | pow u n ih =>
    obtain ⟨u', hu, h⟩ := bind_eq_ok.mp h
    rw [total, ← ih hu, PhysUnit.pow_size h]
  | mul u v ihu ihv =>
    obtain ⟨u', hu, h⟩ := bind_eq_ok.mp h
    obtain ⟨v', hv, h⟩ := bind_eq_ok.mp h
    rw [total, ← ihu hu, ← ihv hv, PhysUnit.mul_size h]
  | div u v ihu ihv =>
    obtain ⟨u', hu, h⟩ := bind_eq_ok.mp h
    obtain ⟨v', hv, h⟩ := bind_eq_ok.mp h
    rw [total, ← ihu hu, ← ihv hv, PhysUnit.div_size h]

end UnitExpr
end Mensura
