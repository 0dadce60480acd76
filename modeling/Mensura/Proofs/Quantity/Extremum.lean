import Mensura.Proofs.Binary64.Restored
import Mensura.Proofs.Quantity.Sum
import Mensura.Quantity.Function

/-!
# The least and the greatest of quantities

The extrema compare the values of their arguments in base units, so neither prefixes nor
multipliers matter, and build a new quantity from the value that they have chosen.

* `Scalar.exists_extremum`: of two values or more, one is chosen that none precedes.
* `Quantity.exists_normalize_restored`: the quantity built from a value has almost that value.
* `NamedFunction.callByName_extremum`: so the result counts as equal to an argument of extreme
  value, in whatever order the arguments come.  A single argument is refused, and an extreme value
  at the very end of the range may come back as infinity.
-/

set_option autoImplicit false

namespace Mensura

open Binary64

/-! ## Choosing a value -/

/-- The functions that choose one of their arguments. -/
inductive NamedFunction.IsExtremum : NamedFunction → Prop
  | min : IsExtremum .min
  | max : IsExtremum .max

/-- Which of two values an extremum chooses; either of them if they are equal. -/
def NamedFunction.Prefers (f : NamedFunction) (v w : Rat) : Prop :=
  match f with
  | .max => w ≤ v
  | _ => v ≤ w

namespace Scalar

variable {f : NamedFunction} {x y : Float} {xs ys : List Float} {a b v w : Rat}

/-- A value of a list that an extremum may choose. -/
structure Extreme (f : NamedFunction) (xs : List Float) (x : Float) (v : Rat) : Prop where
  mem : x ∈ xs
  value : toRat? x = some v
  prefers : ∀ y ∈ xs, ∀ w, toRat? y = some w → f.Prefers v w

/-- Finite values. -/
def AllFinite (xs : List Float) : Prop :=
  ∀ x ∈ xs, ∃ a, toRat? x = some a

theorem prefers_refl (f : NamedFunction) (v : Rat) : f.Prefers v v := by
  cases f <;> exact le_rfl

theorem prefers_trans {u : Rat} (h : f.Prefers u v) (h' : f.Prefers v w) : f.Prefers u w := by
  cases f <;> first | exact le_trans h h' | exact le_trans h' h

theorem prefers_antisymm (h : f.Prefers v w) (h' : f.Prefers w v) : v = w := by
  cases f <;> first | exact le_antisymm h h' | exact le_antisymm h' h

/-- A comparison that says whether a value replaces the one that has been chosen so far. -/
def Replaces (f : NamedFunction) (replaces : Float → Float → Bool) : Prop :=
  ∀ ⦃x y a b⦄, toRat? x = some a → toRat? y = some b →
    (replaces y x = true → f.Prefers b a) ∧ (replaces y x = false → f.Prefers a b)

/-- What is left of a list of finite values is one that none precedes. -/
theorem exists_extreme_foldl {replaces : Float → Float → Bool} (h : Replaces f replaces)
    (hx : toRat? x = some a) (hys : AllFinite ys) :
    ∃ v, Extreme f (x :: ys) (ys.foldl (fun best y ↦ if replaces y best then y else best) x) v := by
  induction ys generalizing x a with
  | nil =>
    refine ⟨a, List.mem_singleton_self x, hx, fun y hy w hw ↦ ?_⟩
    rw [List.mem_singleton.mp hy, hx] at hw
    cases hw
    exact prefers_refl f a
  | cons y ys ih =>
    obtain ⟨⟨b, hb⟩, hrest⟩ := List.forall_mem_cons.mp hys
    obtain ⟨hreplaces, hkeeps⟩ := h hx hb
    -- The better one of the first two goes on; the other one is behind it.
    have hstep {better other : Float} {c e : Rat} (hc : toRat? better = some c)
        (he : toRat? other = some e) (hbetter : f.Prefers c e) :
        ∃ v, Extreme f (better :: ys) (ys.foldl
            (fun best y ↦ if replaces y best then y else best) better) v ∧
          ∀ w, toRat? other = some w → f.Prefers v w := by
      obtain ⟨v, hv⟩ := ih hc hrest
      refine ⟨v, hv, fun w hw ↦ ?_⟩
      rw [he] at hw
      cases hw
      exact prefers_trans (hv.prefers better List.mem_cons_self c hc) hbetter
    rw [List.foldl_cons]
    cases hchoice : replaces y x with
    | true =>
      obtain ⟨v, ⟨hmem, hvalue, hprefers⟩, hother⟩ := hstep hb hx (hreplaces hchoice)
      exact ⟨v, List.mem_cons_of_mem x hmem, hvalue, List.forall_mem_cons.mpr ⟨hother, hprefers⟩⟩
    | false =>
      obtain ⟨v, ⟨hmem, hvalue, hprefers⟩, hother⟩ := hstep hx hb (hkeeps hchoice)
      obtain ⟨hfirst, hlater⟩ := List.forall_mem_cons.mp hprefers
      refine ⟨v, ?_, hvalue, List.forall_mem_cons.mpr ⟨hfirst,
        List.forall_mem_cons.mpr ⟨hother, hlater⟩⟩⟩
      exact (List.sublist_cons_self y ys).cons_cons x |>.subset hmem

theorem replaces_lt : Replaces .min fun y best ↦ lt y best := fun _ _ _ _ hx hy ↦
  ⟨fun h ↦ ((lt_iff hy hx).mp (of_decide_eq_true h)).le,
    fun h ↦ not_lt.mp ((lt_iff hy hx).not.mp (of_decide_eq_false h))⟩

theorem replaces_gt : Replaces .max fun y best ↦ lt best y := fun _ _ _ _ hx hy ↦
  ⟨fun h ↦ ((lt_iff hx hy).mp (of_decide_eq_true h)).le,
    fun h ↦ not_lt.mp ((lt_iff hx hy).not.mp (of_decide_eq_false h))⟩

/-- **Of two finite values or more an extremum chooses one that none precedes.** -/
theorem exists_extremum (hf : f.IsExtremum) (hxs : AllFinite xs) (hlength : 2 ≤ xs.length) :
    ∃ x v, call f xs = .ok x ∧ Extreme f xs x v := by
  match xs, hlength with
  | x :: y :: ys, _ =>
    obtain ⟨⟨a, hx⟩, hrest⟩ := List.forall_mem_cons.mp hxs
    cases hf with
    | min =>
      obtain ⟨v, hv⟩ := exists_extreme_foldl replaces_lt hx hrest
      exact ⟨_, v, rfl, hv⟩
    | max =>
      obtain ⟨v, hv⟩ := exists_extreme_foldl replaces_gt hx hrest
      exact ⟨_, v, rfl, hv⟩

/-- The extreme value does not depend on the order of the values. -/
theorem Extreme.value_unique (h : Extreme f xs x v) (h' : Extreme f ys y w) (hperm : xs.Perm ys) :
    v = w :=
  prefers_antisymm (h.prefers y (hperm.mem_iff.mpr h'.mem) w h'.value)
    (h'.prefers x (hperm.mem_iff.mp h.mem) v h.value)

end Scalar

/-! ## Building a quantity from a value -/

namespace Quantity

variable {d : Dimension} {x y : Float} {v : Rat} {q : Quantity Float}

theorem normalFactor_one : NormalFactor (Scalar.ofNat 1 : Float) 1 :=
  ⟨toRat?_ofNat_one, le_rfl, by norm_num⟩

/-- The quantity of a value in base units. -/
structure Restored (q : Quantity Float) (d : Dimension) (v : Rat) : Prop where
  dim : q.dim = d
  number : IsNumber q.value
  value : ∃ w, toRat? q.value = finite w ∧ Near 64 w v
  zero : v = 0 → toRat? q.value = some 0

/-- **A finite value in base units gives a quantity of almost that value.** -/
theorem exists_normalize_restored (d : Dimension) (hx : toRat? x = some v) :
    ∃ q, normalize ⟨x, .decimal d 0⟩ = .ok q ∧ Restored q d v := by
  obtain ⟨q, hq, hnumber⟩ := exists_normalize (q := ⟨x, .decimal d 0⟩) normalFactor_one hx
  have hdim : q.dim = d := normalize_dim hq
  have hproduct {y : Float} {r : Rat} (hy : toRat? y = some r) :
      toRat? (y * (Scalar.ofNat 1 : Float)) = some r := by
    rw [toRat?_mul_eq hy toRat?_ofNat_one, mul_one, finite_nearestDouble hy]
  rcases eq_or_ne v 0 with rfl | hv
  · have hzero : normalize (⟨x, .decimal d 0⟩ : Quantity Float) = .ok ⟨x, .decimal d 0⟩ :=
      if_pos ((isZero_iff hx).mpr rfl)
    obtain rfl : ⟨x, .decimal d 0⟩ = q := Except.ok.inj (hzero.symm.trans hq)
    have hvalue : toRat? (value ⟨x, .decimal d 0⟩) = some 0 :=
      toRat?_scale10_of_zero (hproduct hx) 0
    refine ⟨_, hzero, hdim, hnumber, ⟨0, ?_, (Near.refl 0).mono (by decide)⟩, fun _ ↦ hvalue⟩
    rw [hvalue, finite_zero]
  · have heq := normalize_eq (q := ⟨x, .decimal d 0⟩) normalFactor_one hx hv
    rw [hq, Except.ok.injEq] at heq
    obtain ⟨s, hs, -⟩ := exists_first_digit hx hv
    obtain ⟨w, hw, hnear⟩ := exists_restored hx hv ((hproduct hs).trans hs.symm)
    refine ⟨q, hq, hdim, hnumber, ⟨w, ?_, hnear⟩, fun hzero ↦ absurd hzero hv⟩
    rw [heq, ← hw]
    change toRat? (scale10 _ (0 + ilog10 x)) = _
    rw [zero_add]
    rfl

/-- Quantities of one value are the same, infinite or not. -/
theorem same_of_normalize {r r' : Quantity Float} (hx : toRat? x = some v)
    (hy : toRat? y = some v) (hr : normalize ⟨x, .decimal d 0⟩ = .ok r)
    (hr' : normalize ⟨y, .decimal d 0⟩ = .ok r') : r'.same r = true := by
  obtain ⟨q, hq, hrestored⟩ := exists_normalize_restored d hx
  obtain ⟨q', hq', hrestored'⟩ := exists_normalize_restored d hy
  obtain rfl : r = q := Except.ok.inj (hr.symm.trans hq)
  obtain rfl : r' = q' := Except.ok.inj (hr'.symm.trans hq')
  rcases eq_or_ne v 0 with rfl | hv
  · have hclose : close r'.value r.value = true := by
      rw [close, (beq_iff (hrestored'.zero rfl) (hrestored.zero rfl)).mpr rfl, Bool.true_or]
    rw [same, hrestored.dim, hrestored'.dim, Bool.and_eq_true]
    exact ⟨decide_eq_true rfl, hclose⟩
  · obtain rfl : x = y := eq_of_toRat? hx hy hv
    obtain rfl : r = r' := Except.ok.inj (hr.symm.trans hr')
    exact same_self hrestored.number

/-- What is finite again counts as equal to any quantity of the value. -/
theorem Restored.same_iff {a : Quantity Float} (h : Restored q d v) (hdim : a.dim = d)
    (ha : toRat? a.value = some v) : q.same a = true ↔ Scalar.isFinite q.value = true := by
  rw [same, h.dim, hdim, decide_eq_true rfl, Bool.true_and]
  obtain ⟨w, hw, hnear⟩ := h.value
  cases hvalue : toRat? q.value with
  | none =>
    have hclose : Scalar.close q.value a.value = false := by
      change close q.value a.value = false
      rw [close_of_not_finite (.inl hvalue), beq_of_not_finite hvalue ha]
    rw [hclose, isFinite_eq_false hvalue]
  | some u =>
    obtain ⟨rfl, -⟩ := finite_eq_some.mp (hw.symm.trans hvalue)
    have hfinite : Scalar.isFinite q.value = true := isFinite_of_toRat? hvalue
    exact iff_of_true (close_of_near hvalue ha hnear) hfinite

theorem Restored.isFinite (h : Restored q d v) (hv : |v| * (1 + 2⁻¹ ^ 45) < 2 ^ (1024 : Int)) :
    Scalar.isFinite q.value = true := by
  obtain ⟨w, hw, hnear⟩ := h.value
  exact isFinite_of_toRat? (hw.trans (hnear.finite_eq hv))

end Quantity

/-! ## Extrema -/

namespace NamedFunction

open Quantity

variable {f : NamedFunction} {args args' : List (Quantity Float)} {d : Dimension}

/-- Arguments that an extremum accepts: finite values of one dimension. -/
structure Comparable (args : List (Quantity Float)) (d : Dimension) : Prop where
  ne_nil : args ≠ []
  dim : ∀ a ∈ args, a.dim = d
  finite : ∀ a ∈ args, ∃ v, toRat? a.value = some v

theorem Comparable.perm (h : Comparable args d) (hperm : args.Perm args') : Comparable args' d where
  ne_nil := fun hnil ↦ h.ne_nil (List.perm_nil.mp (hnil ▸ hperm))
  dim a ha := h.dim a (hperm.mem_iff.mpr ha)
  finite a ha := h.finite a (hperm.mem_iff.mpr ha)

theorem ofName?_name (f : NamedFunction) : ofName? f.name = some f := by
  cases f <;> rfl

theorem Comparable.accepts (hf : f.IsExtremum) (h : Comparable args d) :
    f.arity.accepts args.length = true := by
  have hpos : 1 ≤ args.length := List.length_pos_iff.mpr h.ne_nil
  cases hf <;> simp [Arity.accepts, arity, hpos]

/-- Arguments of one dimension meet the rule for units. -/
theorem Comparable.resultDimension (hf : f.IsExtremum) (h : Comparable args d) :
    f.resultDimension args = .ok d := by
  obtain ⟨first, rest, rfl⟩ := List.exists_cons_of_ne_nil h.ne_nil
  obtain ⟨hfirst, hrest⟩ := List.forall_mem_cons.mp h.dim
  have hnone : rest.find? (·.dim ≠ d) = none := by
    rw [List.find?_eq_none]
    intro a ha
    simp [hrest a ha]
  cases hf <;> simp only [NamedFunction.resultDimension, policy, hfirst, hnone, pure_eq_ok]

/-- The value that is chosen goes into a new quantity. -/
theorem Comparable.callByName_of_ok {x : Float} (hf : f.IsExtremum) (h : Comparable args d)
    (hx : Scalar.call f (args.map Quantity.value) = .ok x) (hfinite : Scalar.isFinite x = true) :
    callByName f.name args = Quantity.normalize ⟨x, .decimal d 0⟩ := by
  simp only [callByName, ofName?_name, applyTo, h.accepts hf, h.resultDimension hf, hx, hfinite,
    Bool.not_true, Bool.false_eq_true, if_false, if_true, ok_bind]

/-- Without a choice there is no result. -/
theorem Comparable.callByName_of_error {e : FunctionFault} (hf : f.IsExtremum)
    (h : Comparable args d) (he : Scalar.call f (args.map Quantity.value) = .error e) :
    callByName f.name args = .error (f.failure e) := by
  simp only [callByName, ofName?_name, applyTo, h.accepts hf, h.resultDimension hf, he,
    Bool.not_true, Bool.false_eq_true, if_false, ok_bind]

/-- The result of an extremum, and the argument that it comes from. -/
theorem Comparable.exists_callByName (hf : f.IsExtremum) (h : Comparable args d)
    (hlength : 2 ≤ args.length) : ∃ x v r,
      Scalar.Extreme f (args.map Quantity.value) x v ∧ callByName f.name args = .ok r ∧
        Quantity.normalize ⟨x, .decimal d 0⟩ = .ok r ∧ Restored r d v := by
  have hfinite : Scalar.AllFinite (args.map Quantity.value) :=
    List.forall_mem_map.mpr h.finite
  obtain ⟨x, v, hx, hextreme⟩ := Scalar.exists_extremum hf hfinite (by rwa [List.length_map])
  obtain ⟨r, hr, hrestored⟩ := exists_normalize_restored d hextreme.value
  exact ⟨x, v, r, hextreme,
    (h.callByName_of_ok hf hx (isFinite_of_toRat? hextreme.value)).trans hr, hr, hrestored⟩

/-- **An extremum of finite quantities of one dimension has the value of the first of them in its
order.**  A single argument is refused; with more of them the result has their dimension, no
argument precedes the one whose value it has, and it counts as equal to that one as long as it is
finite, which every value up to the last few doubles of the range is.  In another order the same
arguments have an equal result. -/
theorem callByName_extremum (hf : f.IsExtremum) (h : Comparable args d) :
    (args.length = 1 → callByName f.name args = .error (.fault .loneArgument)) ∧
    (2 ≤ args.length → ∃ a ∈ args, ∃ v r, toRat? a.value = some v ∧
      (∀ b ∈ args, ∀ w, toRat? b.value = some w → f.Prefers v w) ∧
      callByName f.name args = .ok r ∧ r.dim = d ∧
      (r.same a = true ↔ Scalar.isFinite r.value = true) ∧
      (|v| * (1 + 2⁻¹ ^ 45) < 2 ^ (1024 : Int) → r.same a = true) ∧
      ∀ args', args.Perm args' → ∃ r', callByName f.name args' = .ok r' ∧ r'.same r = true) := by
  constructor
  · intro hone
    obtain ⟨a, rfl⟩ := List.length_eq_one_iff.mp hone
    cases hf <;> exact h.callByName_of_error (by constructor) rfl
  · intro hlength
    obtain ⟨x, v, r, hextreme, hcall, hr, hrestored⟩ := h.exists_callByName hf hlength
    obtain ⟨a, ha, rfl⟩ := List.mem_map.mp hextreme.mem
    have hsame := hrestored.same_iff (h.dim a ha) hextreme.value
    refine ⟨a, ha, v, r, hextreme.value, fun b hb ↦ hextreme.prefers _ (List.mem_map_of_mem hb),
      hcall, hrestored.dim, hsame, fun hv ↦ hsame.mpr (hrestored.isFinite hv), fun args' hperm ↦ ?_⟩
    obtain ⟨y, w, r', hextreme', hcall', hr', -⟩ :=
      (h.perm hperm).exists_callByName hf (hperm.length_eq ▸ hlength)
    obtain rfl : v = w := hextreme.value_unique hextreme' (hperm.map _)
    exact ⟨r', hcall', same_of_normalize hextreme.value hextreme'.value hr hr'⟩

/-- Three hours and two hundred minutes. -/
def twoDurations : List (Quantity Float) :=
  [⟨Scalar.ofNat 3, .base .time, 3, Scalar.ofDecimal 36 (-1), by decide +kernel⟩,
    ⟨Scalar.ofNat 200, .base .time, 1, Scalar.ofNat 6, by decide +kernel⟩]

/-- The longer of the two takes twelve thousand seconds. -/
theorem callByName_extremum_durations :
    IsExtremum .max ∧ Comparable twoDurations (.base .time) ∧ ∃ a ∈ twoDurations, ∃ r,
      toRat? a.value = some 12000 ∧ callByName "max" twoDurations = .ok r ∧
        r.dim = .base .time ∧ r.same a = true := by
  have hvalues : twoDurations.map (fun a ↦ toRat? a.value) = [some 10800, some 12000] := by
    decide +kernel
  obtain ⟨hthree, htail⟩ := List.cons_eq_cons.mp hvalues
  obtain ⟨hminutes, -⟩ := List.cons_eq_cons.mp htail
  have hcomparable : Comparable twoDurations (.base .time) := by
    refine ⟨List.cons_ne_nil _ _, ?_, ?_⟩
    · rintro a (_ | ⟨_, _ | ⟨_, ⟨⟩⟩⟩) <;> rfl
    · rintro a (_ | ⟨_, _ | ⟨_, ⟨⟩⟩⟩)
      · exact ⟨_, hthree⟩
      · exact ⟨_, hminutes⟩
  obtain ⟨a, ha, v, r, hv, hprefers, hr, hdim, -, hsame, -⟩ :=
    (callByName_extremum .max hcomparable).2 (by decide)
  have hless : (12000 : Rat) ≤ v :=
    hprefers _ (List.mem_cons_of_mem _ List.mem_cons_self) _ hminutes
  obtain rfl : v = 12000 := by
    rcases ha with _ | ⟨_, _ | ⟨_, ⟨⟩⟩⟩
    · obtain rfl := Option.some.inj (hthree.symm.trans hv)
      norm_num at hless
    · exact (Option.some.inj (hminutes.symm.trans hv)).symm
  have hsmall : |(12000 : Rat)| * (1 + 2⁻¹ ^ 45) < 2 ^ (14 : Int) := by norm_num
  exact ⟨.max, hcomparable, a, ha, r, hv, hr, hdim,
    hsame (hsmall.trans (zpow_lt_zpow_right₀ (by norm_num) (by norm_num)))⟩

/-- **A single argument has no extremum.** -/
theorem not_every_extremum_found : ¬ ∀ (f : NamedFunction) (args : List (Quantity Float))
    (d : Dimension), f.IsExtremum → Comparable args d → ∃ r, callByName f.name args = .ok r := by
  intro h
  have hvalue : toRat? (ofScalar (Scalar.ofNat 3 : Float)).value = some 3 := by decide +kernel
  have hcomparable : Comparable [ofScalar (Scalar.ofNat 3)] 1 :=
    ⟨List.cons_ne_nil _ _, List.forall_mem_singleton.mpr rfl,
      List.forall_mem_singleton.mpr ⟨3, hvalue⟩⟩
  obtain ⟨r, hr⟩ := h .max _ 1 .max hcomparable
  have hrefused := hcomparable.callByName_of_error .max rfl
  rw [hr] at hrefused
  cases hrefused

/-- The largest double is not brought back: its digits are rounded up on the way. -/
example : (callByName "max" [ofScalar (Scalar.ofNat 1 : Float),
    ofScalar (Scalar.ofDecimal 17976931348623157 292)]).toOption.map
      (fun r ↦ (toRat? r.value, r.unit.decExp)) = some (none, 308) := by
  decide +kernel

end NamedFunction
end Mensura
