import Mensura.Proofs.Registry.Spelling
import Mensura.Proofs.UnitExpr.Total
import Mensura.Scalar.Binary64

/-!
# What labels tell of units

A label tells the names of a unit and where they stand, up to how a mu is written, and so the unit
it shows.  The standard registry knows both ways to write a mu as one prefix.  So two units with one
label are of one dimension and one power of ten exactly if their labels hide the same
(`label_identifies`): in particular, if every power in them is one of a single factor.
-/

set_option autoImplicit false

namespace Mensura
namespace Registry

open UnitExpr

variable {α : Type} [Scalar α]

/-- What the label of a unit hides of its dimension and its power of ten. -/
def hiddenSize (e : UnitExpr) : (Base → Rat) × Int :=
  e.hidden (nameSize (standard : Registry α).resolve)

/-- Units with one label have in common what their labels show. -/
theorem shown_total_eq {p q : UnitExpr} {a b : PhysUnit α} (hp : p.Worded) (hq : q.Worded)
    (ha : standard.eval p = .ok a) (hb : standard.eval q = .ok b) (h : label p = label q) :
    p.shown.total (nameSize (standard : Registry α).resolve) =
      q.shown.total (nameSize (standard : Registry α).resolve) := by
  refine total_eq_of_respelled _ (fun s hs t ht hst ↦ ?_) ((label_eq_iff hp hq).mp h)
  rw [names_shown] at hs ht
  obtain ⟨u, hu⟩ := resolve_of_eval ha s hs
  obtain ⟨v, hv⟩ := resolve_of_eval hb t ht
  have hunit := resolve_respelled (worded_iff.mp hp s hs) (worded_iff.mp hq t ht) hst hu hv
  rw [nameSize, nameSize, hu, hv, hunit]

/-- **What labels tell.**  Two units have one label exactly if they show the same, up to how a mu is
written.  Units with one label have the same dimension and power of ten exactly if their labels hide
the same, and always if every power in them is one of a single factor. -/
theorem label_identifies {s t : String} {p q : UnitExpr} {a b : PhysUnit α}
    (hp : ofText s = .ok p) (hq : ofText t = .ok q)
    (ha : standard.eval p = .ok a) (hb : standard.eval q = .ok b) :
    (label p = label q ↔ p.shown.respelled = q.shown.respelled) ∧
    (label p = label q →
      ((a.dim = b.dim ∧ a.decExp = b.decExp) ↔ hiddenSize (α := α) p = hiddenSize (α := α) q)) ∧
    (p.Legible → q.Legible → label p = label q → a.dim = b.dim ∧ a.decExp = b.decExp) := by
  have hpw := worded_of_ofText hp
  have hqw := worded_of_ofText hq
  have hiff (h : label p = label q) :
      (a.dim = b.dim ∧ a.decExp = b.decExp) ↔ hiddenSize (α := α) p = hiddenSize (α := α) q := by
    rw [← PhysUnit.size_eq_iff, eval_size ha, eval_size hb, total_eq _ p, total_eq _ q,
      shown_total_eq hpw hqw ha hb h, add_right_inj]
    rfl
  refine ⟨label_eq_iff hpw hqw, hiff, fun hlegible hlegible' h ↦ (hiff h).mpr ?_⟩
  rw [hiddenSize, hiddenSize, hidden_of_legible _ hlegible, hidden_of_legible _ hlegible']

/-- The unit of an expression with the given dimension. -/
theorem exists_eval_of_dim {e : UnitExpr} {d : Dimension}
    (h : ((standard : Registry Float).eval e).toOption.map PhysUnit.dim = some d) :
    ∃ a : PhysUnit Float, standard.eval e = .ok a ∧ a.dim = d := by
  cases he : (standard : Registry Float).eval e with
  | ok a =>
    rw [he] at h
    exact ⟨a, rfl, Option.some.inj h⟩
  | error _ =>
    rw [he] at h
    cases h

open Grammar in
/-- Parentheses around a product do not matter. -/
theorem label_identifies_product :
    ∃ (p q : UnitExpr) (a b : PhysUnit Float), ofText "km (s A^2)" = .ok p ∧
      ofText "km s A^2" = .ok q ∧ p ≠ q ∧ standard.eval p = .ok a ∧ standard.eval q = .ok b ∧
      label p = label q ∧ a.dim = b.dim ∧ a.decExp = b.decExp := by
  let p : UnitExpr := .mul (.name "km") (.mul (.name "s") (.pow (.name "A") 2))
  let q : UnitExpr := .mul (.mul (.name "km") (.name "s")) (.pow (.name "A") 2)
  have hp : ofText "km (s A^2)" = .ok p := by
    have hparses : Parses "km (s A^2)" (.of (.of (.name "km") none) (.next .beside (.of (.group
        (.of (.of (.name "s") none) (.next .beside (.of (.name "A")
          (some ⟨.caret, ⟨"2", false⟩⟩)) .done))) none) .done)) :=
      .of_lexes <| .of_lexeme? ['k', 'm'] (by decide +kernel) <| .blank (by decide) <|
        .of_lexeme? ['('] (by decide) <| .of_lexeme? ['s'] (by decide +kernel) <|
        .blank (by decide) <| .of_lexeme? ['A'] (by decide +kernel) <|
        .of_lexeme? ['^'] (by decide) <| .of_lexeme? ['2'] (by decide) <|
        .of_lexeme? [')'] (by decide) <| .done (by simp)
    rw [hparses.ofText_eq]
    rfl
  have hq : ofText "km s A^2" = .ok q := by
    have hparses : Parses "km s A^2" (.of (.of (.name "km") none) (.next .beside
        (.of (.name "s") none) (.next .beside (.of (.name "A")
          (some ⟨.caret, ⟨"2", false⟩⟩)) .done))) :=
      .of_lexes <| .of_lexeme? ['k', 'm'] (by decide +kernel) <| .blank (by decide) <|
        .of_lexeme? ['s'] (by decide +kernel) <| .blank (by decide) <|
        .of_lexeme? ['A'] (by decide +kernel) <| .of_lexeme? ['^'] (by decide) <|
        .of_lexeme? ['2'] (by decide) <| .done (by simp)
    rw [hparses.ofText_eq]
    rfl
  obtain ⟨a, ha, -⟩ := exists_eval_of_dim (e := p)
    (d := .base .length * (.base .time * (Dimension.base .current).pow 2)) (by decide +kernel)
  obtain ⟨b, hb, -⟩ := exists_eval_of_dim (e := q)
    (d := .base .length * .base .time * (Dimension.base .current).pow 2) (by decide +kernel)
  obtain ⟨hlabel, -, hsame⟩ := label_identifies hp hq ha hb
  have hshown : label p = label q := hlabel.mpr rfl
  have hlegible : p.Legible := ⟨trivial, trivial, trivial, .inl trivial⟩
  have hlegible' : q.Legible := ⟨⟨trivial, trivial⟩, trivial, .inl trivial⟩
  obtain ⟨hdim, hexp⟩ := hsame hlegible hlegible' hshown
  exact ⟨p, q, a, b, hp, hq, by decide, ha, hb, hshown, hdim, hexp⟩

open Grammar in
/-- **The label of a power of a product does not tell the unit**: that of `(m s)^2` is that of
`m s^2`, which is of another dimension. -/
theorem exists_label_of_two_units :
    ∃ (p q : UnitExpr) (a b : PhysUnit Float), ofText "(m s)^2" = .ok p ∧
      ofText "m s^2" = .ok q ∧ standard.eval p = .ok a ∧ standard.eval q = .ok b ∧
      label p = label q ∧ a.dim ≠ b.dim := by
  let p : UnitExpr := .pow (.mul (.name "m") (.name "s")) 2
  let q : UnitExpr := .mul (.name "m") (.pow (.name "s") 2)
  have hp : ofText "(m s)^2" = .ok p := by
    have hparses : Parses "(m s)^2" (.of (.of (.group (.of (.of (.name "m") none)
        (.next .beside (.of (.name "s") none) .done))) (some ⟨.caret, ⟨"2", false⟩⟩)) .done) :=
      .of_lexes <| .of_lexeme? ['('] (by decide) <| .of_lexeme? ['m'] (by decide +kernel) <|
        .blank (by decide) <| .of_lexeme? ['s'] (by decide +kernel) <|
        .of_lexeme? [')'] (by decide) <| .of_lexeme? ['^'] (by decide) <|
        .of_lexeme? ['2'] (by decide) <| .done (by simp)
    rw [hparses.ofText_eq]
    rfl
  have hq : ofText "m s^2" = .ok q := by
    have hparses : Parses "m s^2" (.of (.of (.name "m") none)
        (.next .beside (.of (.name "s") (some ⟨.caret, ⟨"2", false⟩⟩)) .done)) :=
      .of_lexes <| .of_lexeme? ['m'] (by decide +kernel) <| .blank (by decide) <|
        .of_lexeme? ['s'] (by decide +kernel) <| .of_lexeme? ['^'] (by decide) <|
        .of_lexeme? ['2'] (by decide) <| .done (by simp)
    rw [hparses.ofText_eq]
    rfl
  have hlabel : label p = label q := by
    rw [← label_shown p, ← label_shown q]
    rfl
  obtain ⟨a, ha, hadim⟩ := exists_eval_of_dim (e := p)
    (d := (.base .length * .base .time : Dimension).pow 2) (by decide +kernel)
  obtain ⟨b, hb, hbdim⟩ := exists_eval_of_dim (e := q)
    (d := .base .length * (Dimension.base .time).pow 2) (by decide +kernel)
  refine ⟨p, q, a, b, hp, hq, ha, hb, hlabel, ?_⟩
  rw [hadim, hbdim]
  decide +kernel

end Registry
end Mensura
