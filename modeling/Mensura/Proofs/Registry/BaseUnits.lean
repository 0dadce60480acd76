import Mensura.Dimension.Text
import Mensura.Proofs.Expr.Rounding

/-!
# Dimensions as units

The text of a dimension, `m g s^-2`, is also the text of a unit.  Both readers of units read it, and
in the standard registry it is the unit of that dimension itself, without a scale
(`text_reads_back`), if the exponents are integers that a double can hold.

* The text is a row of base units side by side, each with its exponent unless that is one
  (`Row.text_ofFactors`), so it has a plan (`Row.plan_ofFactors`).
* What the plan is evaluated to has the dimension of its factors (`eval_timesFactors`), and the
  factors of a dimension multiply to it (`prod_factors`).
-/

set_option autoImplicit false

namespace Mensura

/-! ## Integers that are written and read -/

namespace Text

theorem isDecimalDigit_of_mem_toDigits {n : Nat} {c : Char} (h : c ∈ Nat.toDigits 10 n) :
    isDecimalDigit c = true := by
  have hdigit := Nat.isDigit_of_mem_toDigits (by decide) (by decide) h
  rw [isDecimalDigit, Expr.decimalValue?_of_isDigit hdigit]
  rfl

theorem digitsValue_toDigits (n : Nat) : digitsValue (Nat.toDigits 10 n) = n := by
  have hdigits : ∀ c ∈ Nat.toDigits 10 n, c.isDigit = true := fun c hc ↦
    Nat.isDigit_of_mem_toDigits (by decide) (by decide) hc
  rw [digitsValue, natOfDigits?, if_neg (by simp [Nat.toDigits_ne_nil]), Expr.readDigits_eq hdigits,
    Nat.ofDigitChars_ten_toDigits, Option.getD_some]

/-- Digits that can be written are not too many to be read. -/
theorem bounded_toDigits {n : Nat} (h : n < firstTooLarge) (i : Int) :
    bounded (Nat.toDigits 10 n).length i = .ok i := by
  have hlength : (Nat.toDigits 10 n).length ≤ longestInteger :=
    (Nat.length_toDigits_le_iff (by decide) (by decide)).mpr h
  exact if_neg (Nat.not_lt.mpr hlength)

/-- **An integer that can be written is read again.** -/
theorem integer_toString {n : Int} (h : isWritable n = true) : integer (toString n) = .ok n := by
  have hdigits (k : Nat) : ∀ c ∈ Nat.toDigits 10 k, isDecimalDigit c = true := fun c hc ↦
    isDecimalDigit_of_mem_toDigits hc
  rw [isWritable, decide_eq_true_eq] at h
  cases n with
  | ofNat k =>
    have hk : k < firstTooLarge := h
    have htext : toString (Int.ofNat k) = String.ofList (Nat.toDigits 10 k) :=
      Nat.toString_eq_ofList_toDigits
    rw [htext, integer_digits Nat.toDigits_ne_nil (hdigits k), bounded_toDigits hk, signedValue,
      digitsValue_toDigits]
    rfl
  | negSucc k =>
    have hk : k + 1 < firstTooLarge := h
    have htext : toString (Int.negSucc k) = String.ofList ('-' :: Nat.toDigits 10 (k + 1)) := by
      rw [String.ofList_cons, ← Nat.toString_eq_ofList_toDigits]
      rfl
    rw [htext, integer_signed (.inr rfl) Nat.toDigits_ne_nil (hdigits _), bounded_toDigits hk,
      signedValue, digitsValue_toDigits]
    rfl

end Text

/-! ## Powers of one -/

namespace Binary64

variable {x : Float} {n : Int}

/-- An exponent that a double can hold. -/
theorem exists_ofInt (hn : |n| < 2 ^ 1000) : ∃ a, toRat? (ofInt n) = some a := by
  have hless : (n.natAbs : Rat) < 2 ^ 1000 := by
    rw [natAbs_cast_eq_abs, ← Int.cast_abs, ← Int.cast_ofNat, ← Int.cast_pow]
    exact Int.cast_lt.mpr hn
  have hrange : n.natAbs = 0 ∨ Normal (n.natAbs / (1 : Nat)) := by
    rcases Nat.eq_zero_or_pos n.natAbs with hzero | hpos
    · exact .inl hzero
    · have hone : (1 : Rat) ≤ n.natAbs := by exact_mod_cast hpos
      rw [Nat.cast_one, div_one]
      refine .inr ⟨?_, ?_⟩ <;> rw [Nat.abs_cast]
      · exact (zpow_le_one_of_nonpos₀ (by norm_num) (by norm_num)).trans hone
      · rw [← zpow_natCast] at hless
        exact hless.trans (zpow_lt_zpow_right₀ (by norm_num) (by norm_num))
  rw [ofInt, toRat?_nearest Nat.one_pos hrange]
  exact ⟨_, rfl⟩

/-- One to any power but zero is one. -/
theorem powInt_of_one (hx : toRat? x = some 1) (hn : n ≠ 0) (hsmall : |n| < 2 ^ 1000) :
    ∃ y, powInt x n = some y ∧ toRat? y = some 1 := by
  obtain ⟨a, ha⟩ := exists_ofInt hsmall
  obtain ⟨hinf, hnan⟩ := ordinary_of_toRat? hx
  have hzero := beq_zero_eq_false hx one_ne_zero
  have habs : (x.abs == 1) = true :=
    (beq_iff (toRat?_abs hx) toRat?_one).mpr (abs_of_pos one_pos)
  have hpositive : powPositive x.abs n = some 1 := by rw [powPositive, if_pos habs]
  have hsign : isNegative x = false := by
    rw [isNegative_eq hx one_ne_zero]
    decide
  rw [powInt]
  simp only [(ordinary_of_toRat? ha).1, hinf, hnan, hzero, hpositive, hn, Bool.false_eq_true,
    if_false]
  refine ⟨_, rfl, ?_⟩
  split
  · rw [toRat?_copySign toRat?_one, hsign]
    norm_num
  · exact toRat?_one

end Binary64

namespace UnitExpr
namespace Row

/-- An integer as an exponent. -/
def Exponent.ofInt (n : Int) : Exponent :=
  ⟨if n < 0 then some .minus else none, Nat.toDigits 10 n.natAbs, false, Nat.toDigits_ne_nil,
    fun _ hc ↦ Text.isDecimalDigit_of_mem_toDigits hc⟩

theorem Exponent.integer_ofInt (n : Int) : (ofInt n).integer = (toString n).toList := by
  cases n with
  | ofNat k => exact Nat.toList_repr.symm
  | negSucc k =>
    have htext : toString (Int.negSucc k) = "-" ++ Nat.repr (k + 1) := rfl
    rw [htext, String.toList_append, Nat.toList_repr]
    simp [integer, ofInt, Sign.char]

/-- One factor of a dimension as it is written: the base unit, and its exponent unless it is one. -/
def Piece.ofFactor (f : Base × Rat) : Piece :=
  ⟨f.1.symbol.toList, if f.2 = 1 then none else some (.ofInt f.2.num)⟩

theorem Piece.chars_ofFactor {f : Base × Rat} (hf : f.2.den = 1) :
    (ofFactor f).chars = (Dimension.factorText f).toList := by
  rw [chars, ofFactor, Dimension.factorText]
  split
  · exact List.append_nil _
  · rw [String.toList_append, String.toList_append, Dimension.exponentText, if_pos hf, powerChars,
      Exponent.chars, Exponent.integer_ofInt]
    simp [Exponent.ofInt]

end Row

/-- One factor of a dimension as a unit. -/
def ofFactor (f : Base × Rat) : UnitExpr :=
  if f.2 = 1 then .name f.1.symbol else .pow (.name f.1.symbol) f.2.num

/-- A unit with the factors of a dimension behind it. -/
def timesFactors (u : UnitExpr) (fs : List (Base × Rat)) : UnitExpr :=
  fs.foldl (fun u f ↦ .mul u (ofFactor f)) u

theorem Row.Piece.plan_ofFactor {f : Base × Rat} (hf : Text.isWritable f.2.num = true) :
    (Piece.ofFactor f).term.plan = .ok (UnitExpr.ofFactor f) := by
  rw [term, Grammar.Term.plan, Grammar.Factor.plan, ok_bind, ofFactor, UnitExpr.ofFactor,
    String.ofList_toList]
  split
  · rfl
  · rw [Option.map_some, Grammar.poweredPlan, power, Exponent.integer_ofInt, String.ofList_toList,
      Text.integer_toString hf]
    rfl

namespace Row

/-- The factors of a dimension side by side. -/
def ofFactors (f : Base × Rat) (fs : List (Base × Rat)) : Row :=
  ⟨.ofFactor f, fs.map fun g ↦ (.beside, .ofFactor g)⟩

theorem text_ofFactors {f : Base × Rat} {fs : List (Base × Rat)}
    (hfs : ∀ g ∈ f :: fs, g.2.den = 1) :
    (ofFactors f fs).text = " ".intercalate ((f :: fs).map Dimension.factorText) := by
  rw [← String.toList_inj, text, String.toList_ofList, chars, ofFactors]
  dsimp only
  induction fs generalizing f with
  | nil =>
    rw [Piece.chars_ofFactor (hfs f List.mem_cons_self)]
    simp [moreChars]
  | cons g fs ih =>
    obtain ⟨hf, hfs⟩ := List.forall_mem_cons.mp hfs
    rw [List.map_cons, List.map_cons, List.map_cons, String.intercalate_cons_cons,
      ← List.map_cons, moreChars, Piece.chars_ofFactor hf, ih hfs, String.toList_append,
      String.toList_append, List.append_assoc]
    rfl

theorem named_ofFactors (f : Base × Rat) (fs : List (Base × Rat)) :
    (ofFactors f fs).Named IsLetters := by
  have hsymbol (b : Base) : IsLetters b.symbol.toList := by
    have hall : b.symbol.toList.all Char.isAlpha = true := by cases b <;> decide
    exact ⟨by cases b <;> decide, List.all_eq_true.mp hall⟩
  exact ⟨hsymbol f.1, List.forall_mem_map.mpr fun g _ ↦ hsymbol g.1⟩

theorem planAfter_ofFactors {fs : List (Base × Rat)}
    (hfs : ∀ f ∈ fs, Text.isWritable f.2.num = true) (u : UnitExpr) :
    (terms (fs.map fun f ↦ (.beside, .ofFactor f))).planAfter u = .ok (timesFactors u fs) := by
  induction fs generalizing u with
  | nil => rfl
  | cons f fs ih =>
    obtain ⟨hf, hfs⟩ := List.forall_mem_cons.mp hfs
    rw [List.map_cons, terms, Grammar.More.planAfter, Piece.plan_ofFactor hf, ok_bind]
    exact ih hfs _

/-- **The text of a dimension has a plan.** -/
theorem plan_ofFactors {f : Base × Rat} {fs : List (Base × Rat)}
    (hfs : ∀ g ∈ f :: fs, Text.isWritable g.2.num = true) :
    (ofFactors f fs).plan = .ok (timesFactors (UnitExpr.ofFactor f) fs) := by
  obtain ⟨hf, hfs⟩ := List.forall_mem_cons.mp hfs
  rw [plan, derivation, Grammar.Expression.plan, ofFactors, Piece.plan_ofFactor hf, ok_bind]
  exact planAfter_ofFactors hfs _

end Row
end UnitExpr

/-! ## Factors of a dimension -/

namespace Dimension

/-- The dimension of some factors. -/
def timesFactors (d : Dimension) (fs : List (Base × Rat)) : Dimension :=
  fs.foldl (fun d f ↦ d * (base f.1).pow f.2) d

theorem exponent_timesFactors (d : Dimension) (fs : List (Base × Rat)) (b : Base) :
    (d.timesFactors fs).exponent b =
      d.exponent b + (fs.map fun f ↦ if b = f.1 then f.2 else 0).sum := by
  induction fs generalizing d with
  | nil => simp [timesFactors]
  | cons f fs ih =>
    rw [timesFactors, List.foldl_cons, ← timesFactors, ih, List.map_cons, List.sum_cons,
      ← add_assoc]
    simp [base]

/-- **A dimension is the product of its factors.** -/
theorem prod_factors (d : Dimension) : timesFactors 1 d.factors = d := by
  have hfilter (b : Base) (l : List Base) :
      (((l.map fun c ↦ (c, d.exponent c)).filter fun f ↦ f.2 ≠ 0).map
        fun f ↦ if b = f.1 then f.2 else 0).sum =
      (l.map fun c ↦ if b = c then d.exponent c else 0).sum := by
    induction l with
    | nil => rfl
    | cons c l ih =>
      rw [List.map_cons, List.map_cons, List.sum_cons, ← ih, List.filter_cons]
      split
      · rw [List.map_cons, List.sum_cons]
      · next hzero =>
        obtain hzero : d.exponent c = 0 := by simpa using hzero
        rw [hzero, ite_self, zero_add]
  refine ext_exponent fun b ↦ ?_
  rw [exponent_timesFactors, factors, hfilter, exponent_one, zero_add]
  cases b <;> simp [Base.all]

theorem factors_ne_nil {d : Dimension} (h : d ≠ 1) : d.factors ≠ [] := by
  intro hnil
  rw [← prod_factors d, hnil] at h
  exact h rfl

end Dimension

/-! ## Units without a scale -/

/-- The unit of a dimension itself: no power of ten, and a multiplier of one. -/
structure PhysUnit.IsBase (u : PhysUnit Float) (d : Dimension) : Prop where
  dim : u.dim = d
  decExp : u.decExp = 0
  multiplier : Binary64.toRat? u.multiplier = some 1

namespace PhysUnit

open Binary64

variable {u v : PhysUnit Float} {d e : Dimension}

theorem exists_isBase {m : Float} (hm : toRat? m = some 1) :
    ∃ w, ofParts d 0 m = .ok w ∧ w.IsBase d := by
  rw [ofParts, dif_pos (Binary64.isFactor_of_ne_zero hm one_ne_zero)]
  exact ⟨_, rfl, rfl, rfl, hm⟩

theorem IsBase.mul (hu : u.IsBase d) (hv : v.IsBase e) :
    ∃ w, u.mul v = .ok w ∧ w.IsBase (d * e) := by
  have hm : toRat? (u.multiplier * v.multiplier) = some 1 := by
    rw [toRat?_mul_eq hu.multiplier hv.multiplier, one_mul]
    exact finite_nearestDouble toRat?_one
  rw [PhysUnit.mul, hu.dim, hv.dim, hu.decExp, hv.decExp]
  exact exists_isBase hm

theorem IsBase.pow (hu : u.IsBase d) {n : Int} (hn : n ≠ 0) (hsmall : |n| < 2 ^ 1000) :
    ∃ w, u.pow n = .ok w ∧ w.IsBase (d.pow n) := by
  obtain ⟨m, hpow, hm⟩ := powInt_of_one hu.multiplier hn hsmall
  have hpow' : Scalar.powInt u.multiplier n = some m := hpow
  rw [PhysUnit.pow, if_neg hn, hpow', hu.dim, hu.decExp, zero_mul]
  exact exists_isBase hm

end PhysUnit

namespace UnitExpr

/-- An exponent that a factor may have: an integer other than zero that a double can hold. -/
structure IsExponent (r : Rat) : Prop where
  den_eq : r.den = 1
  ne_zero : r ≠ 0
  small : |r.num| < 2 ^ 1000

theorem eval_ofFactor {f : Base × Rat} (hf : IsExponent f.2) :
    ∃ u : PhysUnit Float, Registry.standard.eval (ofFactor f) = .ok u ∧
      u.IsBase ((Dimension.base f.1).pow f.2) := by
  obtain ⟨u, hu, hdim, hexp, hmultiplier⟩ := Expr.resolve_symbol f.1
  have hbase : u.IsBase (.base f.1) := ⟨hdim, hexp, hmultiplier⟩
  rw [ofFactor]
  split
  · next hone =>
    have hpow : (Dimension.base f.1).pow f.2 = .base f.1 := by
      refine Dimension.ext_exponent fun b ↦ ?_
      rw [Dimension.exponent_pow, hone, mul_one]
    rw [hpow]
    exact ⟨u, hu, hbase⟩
  · obtain ⟨w, hw, hpow⟩ := hbase.pow (Rat.num_ne_zero.mpr hf.ne_zero) hf.small
    have hcast : ((f.2.num : Int) : Rat) = f.2 := Rat.den_eq_one_iff _ |>.mp hf.den_eq
    rw [hcast] at hpow
    exact ⟨w, by rw [Registry.eval, eval, eval, hu, ok_bind, hw], hpow⟩

/-- A product of factors is evaluated to the unit of the product of their dimensions. -/
theorem eval_timesFactors {fs : List (Base × Rat)} (hfs : ∀ f ∈ fs, IsExponent f.2)
    {u : UnitExpr} {v : PhysUnit Float} {d : Dimension} (hu : Registry.standard.eval u = .ok v)
    (hv : v.IsBase d) : ∃ w : PhysUnit Float,
      Registry.standard.eval (timesFactors u fs) = .ok w ∧ w.IsBase (d.timesFactors fs) := by
  induction fs generalizing u v d with
  | nil => exact ⟨v, hu, hv⟩
  | cons f fs ih =>
    obtain ⟨hf, hfs⟩ := List.forall_mem_cons.mp hfs
    obtain ⟨p, hp, hpbase⟩ := eval_ofFactor hf
    obtain ⟨w, hw, hwbase⟩ := hv.mul hpbase
    have hmul : Registry.standard.eval (mul u (ofFactor f)) = .ok w := by
      rw [Registry.eval] at hu hp ⊢
      rw [eval, hu, ok_bind, hp, ok_bind, hw]
    exact ih hfs hmul hwbase

end UnitExpr

/-! ## Texts of dimensions -/

namespace Expr

open Token

/-- A number with its unit behind it, up to the end. -/
theorem Numeral.ofText_attach {α : Type} [Scalar α] {r : Registry α} {e : Expr α} {text : String}
    (h : Numeral text e) {row : UnitExpr.Row} (hnames : row.Named IsUnitName) {plan : UnitExpr}
    {u : PhysUnit α} (hplan : row.plan = .ok plan) (hu : r.eval plan = .ok u) :
    ofText r (text ++ " " ++ row.text) = .ok (unary (.attach u plan.label) e) := by
  obtain ⟨ts, hts, hread⟩ := exists_row_tokens hnames (text.toList.length + 1) true
  have htext : (text ++ " " ++ row.text).toList = text.toList ++ ' ' :: row.chars := by
    simp [String.toList_append, UnitExpr.Row.text]
  have hcuts : Cuts 0 false (text ++ " " ++ row.text).toList (⟨.number, text, 0, false⟩ :: ts) := by
    have hnumber : Cuts 0 false text.toList [⟨.number, text, 0, false⟩] := by
      simpa only [String.ofList_toList] using h.isNumeral.cuts
    rw [← Nat.zero_add text.toList.length] at hts
    rw [htext]
    exact hnumber.append hts.blank (separated_cons (by decide))
  obtain ⟨stop, hstop, htokens⟩ : ∃ stop : Token, stop.kind = .stop ∧
      Token.ofText (text ++ " " ++ row.text) = .ok (_ ++ [stop]) := ⟨_, rfl, hcuts.ofText⟩
  obtain ⟨hstarts, hunit⟩ := hread [stop] (endsUnit_of_closes (.inl hstop))
  rw [hplan] at hunit
  exact ofText_eq_ok.mpr ⟨_, htokens, ofTokens_eq_ok.mpr ⟨[stop], .expression (h.operand _ _ _)
    (.attach hstarts (Nat.zero_le _) hunit hu (.settled (settled_stop hstop))), hstop⟩⟩

theorem numeral_one : Numeral "1" (literal (.ofScalar (Scalar.ofNat 1)) : Expr Float) :=
  ⟨isNumeral_digits (by simp) (by simp; decide), rfl⟩

end Expr

namespace Dimension

open UnitExpr (IsExponent)

variable {d : Dimension}

/-- An integer below `2 ^ 1000` can be written. -/
theorem isWritable_of_small {n : Int} (h : |n| < 2 ^ 1000) : Text.isWritable n = true := by
  have hless : n.natAbs < 2 ^ 1000 := by
    zify
    exact h
  exact Text.isWritable_of_natAbs_lt (k := 1000) (by decide) hless

theorem isExponent_of_mem_factors (h : ∀ b, ∃ n : Int, d.exponent b = n ∧ |n| < 2 ^ 1000)
    {f : Base × Rat} (hf : f ∈ d.factors) : IsExponent f.2 := by
  rw [factors, List.mem_filter, List.mem_map] at hf
  obtain ⟨⟨b, -, rfl⟩, hne⟩ := hf
  obtain ⟨n, hn, hsmall⟩ := h b
  rw [decide_eq_true_eq] at hne
  refine ⟨?_, hne, ?_⟩ <;> dsimp only <;> rw [hn]
  · rfl
  · exact hsmall

theorem text_eq_ok (h : ∀ b, ∃ n : Int, d.exponent b = n ∧ |n| < 2 ^ 1000) :
    d.text = .ok d.baseUnits := by
  have hwritable : d.isWritable = true := by
    rw [isWritable, toList, List.all_map, List.all_eq_true]
    intro b _
    obtain ⟨n, hn, hsmall⟩ := h b
    rw [Function.comp_apply, hn, Bool.and_eq_true]
    exact ⟨isWritable_of_small hsmall, isWritable_of_small (one_lt_pow₀ one_lt_two (by simp))⟩
  rw [text, checkWritable, if_pos hwritable]
  rfl

/-- **The text of a dimension is read as the unit of that dimension**, by itself and behind a
number, if the exponents are integers below `2 ^ 1000`, and not all of them zero. -/
theorem text_reads_back (h : ∀ b, ∃ n : Int, d.exponent b = n ∧ |n| < 2 ^ 1000) (hd : d ≠ 1) :
    ∃ (text : String) (u : PhysUnit Float) (label : String), d.text = .ok text ∧
      (UnitExpr.ofText text >>= Registry.standard.eval) = .ok u ∧
      u.dim = d ∧ u.decExp = 0 ∧ Binary64.toRat? u.multiplier = some 1 ∧
      Expr.ofText Registry.standard ("1 " ++ text) =
        .ok (.unary (.attach u label) (.literal (.ofScalar (Scalar.ofNat 1)))) := by
  obtain ⟨f, fs, hfactors⟩ := List.exists_cons_of_ne_nil (factors_ne_nil hd)
  have hexponents : ∀ g ∈ f :: fs, IsExponent g.2 := fun g hg ↦
    isExponent_of_mem_factors h (hfactors ▸ hg)
  obtain ⟨hf, hfs⟩ := List.forall_mem_cons.mp hexponents
  obtain ⟨v, hv, hvbase⟩ := UnitExpr.eval_ofFactor hf
  obtain ⟨u, hu, hubase⟩ := UnitExpr.eval_timesFactors hfs hv hvbase
  have hdim : timesFactors ((base f.1).pow f.2) fs = d := by
    have hprod := prod_factors d
    rw [hfactors, timesFactors, List.foldl_cons, ← timesFactors] at hprod
    rw [← hprod]
    congr 1
    exact ext_exponent fun b ↦ by simp
  have hplan := UnitExpr.Row.plan_ofFactors fun g hg ↦ isWritable_of_small (hexponents g hg).small
  have hnames := UnitExpr.Row.named_ofFactors f fs
  have htext : (UnitExpr.Row.ofFactors f fs).text = d.baseUnits := by
    rw [UnitExpr.Row.text_ofFactors fun g hg ↦ (hexponents g hg).den_eq, baseUnits, hfactors]
  refine ⟨d.baseUnits, u, (UnitExpr.timesFactors (.ofFactor f) fs).label, text_eq_ok h, ?_,
    hubase.dim.trans hdim, hubase.decExp, hubase.multiplier, ?_⟩
  · rw [← htext, UnitExpr.ofText_row _ hnames, hplan, liftM_ok, ok_bind, hu]
  · rw [← htext]
    exact Expr.numeral_one.ofText_attach
      ⟨Expr.isUnitName_of_isLetters hnames.first,
        fun x hx ↦ Expr.isUnitName_of_isLetters (hnames.more x hx)⟩ hplan hu

/-- The unit of force, in grams: its text is `m g s^-2`. -/
theorem text_reads_back_force : force.text = .ok "m g s^-2" ∧ ∃ u : PhysUnit Float,
    (UnitExpr.ofText "m g s^-2" >>= Registry.standard.eval) = .ok u ∧ u.dim = force ∧
      u.decExp = 0 := by
  have hwhole : ∀ b, ∃ n : Int, force.exponent b = n ∧ |n| < 2 ^ 1000 := by
    have htable : ∀ b ∈ Base.all, force.exponent b = (force.exponent b).num ∧
        |(force.exponent b).num| < 3 := by decide +kernel
    intro b
    obtain ⟨hcast, hsmall⟩ := htable b (by cases b <;> decide)
    exact ⟨_, hcast, hsmall.trans ((by norm_num : (3 : Int) < 2 ^ 2).trans
      (pow_lt_pow_right₀ one_lt_two (by norm_num)))⟩
  have hne : force ≠ 1 := by decide +kernel
  have htext : force.text.toOption = some "m g s^-2" := by decide +kernel
  obtain ⟨text, u, -, hforce, hread, hdim, hexp, -⟩ := text_reads_back hwhole hne
  rw [hforce] at htext
  obtain rfl := Option.some.inj htext
  exact ⟨hforce, u, hread, hdim, hexp⟩

end Dimension
end Mensura
