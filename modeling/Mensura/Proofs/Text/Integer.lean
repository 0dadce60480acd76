import Mensura.Proofs.Expr.Lexeme
import Mensura.Text.Integer

/-!
# Integers of decimal digits

A run of decimal digits, of any script and perhaps with a sign before it, is read as an integer up
to `longestInteger` digits; a longer one is a fault that counts them (`integer_digits`,
`integer_signed`).  Nothing else can go wrong.

The text of an integer is ASCII digits, perhaps behind a minus sign, and tells the integer
(`toString_int_injective`).
-/

set_option autoImplicit false

namespace Mensura
namespace Text

/-- An integer of some digits; too many of them are a fault. -/
def bounded (digits : Nat) (n : Int) : Except Fault Int :=
  if longestInteger < digits then .error (.integerTooLong digits) else .ok n

/-- The number that decimal digits stand for. -/
def digitsValue (cs : List Char) : Nat :=
  (natOfDigits? cs).getD 0

/-- The integer of a sign, if there is one, and digits behind it. -/
def signedValue (sign : Option Char) (cs : List Char) : Int :=
  if sign = some '-' then -(digitsValue cs : Int) else digitsValue cs

section Digits

variable {cs : List Char}

theorem exists_readDigits (h : ∀ c ∈ cs, isDecimalDigit c = true) (start : Nat) :
    ∃ n, readDigits start cs = some n := by
  induction cs generalizing start with
  | nil => exact ⟨start, rfl⟩
  | cons c cs ih =>
    obtain ⟨hc, hcs⟩ := List.forall_mem_cons.mp h
    obtain ⟨d, hd⟩ := Option.isSome_iff_exists.mp hc
    obtain ⟨n, hn⟩ := ih hcs (10 * start + d)
    exact ⟨n, by rw [readDigits, hd]; exact hn⟩

theorem natOfDigits?_eq (hne : cs ≠ []) (h : ∀ c ∈ cs, isDecimalDigit c = true) :
    natOfDigits? cs = some (digitsValue cs) := by
  obtain ⟨n, hn⟩ := exists_readDigits h 0
  have hvalue : natOfDigits? cs = some n := by
    rw [natOfDigits?, if_neg (by simpa using hne), hn]
  rw [digitsValue, hvalue]
  rfl

theorem not_decimal_underscore : isDecimalDigit '_' = false := by
  decide

/-- Digits without underscores are all there is. -/
theorem plainDigits?_eq (hne : cs ≠ []) (h : ∀ c ∈ cs, isDecimalDigit c = true) :
    plainDigits? cs = some cs := by
  induction cs with
  | nil => exact absurd rfl hne
  | cons c cs ih =>
    obtain ⟨hc, hcs⟩ := List.forall_mem_cons.mp h
    cases cs with
    | nil => simp [plainDigits?, hc]
    | cons d ds =>
      have hd : d ≠ '_' := by
        rintro rfl
        simpa [not_decimal_underscore] using hcs '_' List.mem_cons_self
      rw [plainDigits?, if_pos hc, ih (List.cons_ne_nil _ _) hcs]
      · rfl
      · simp
      · simpa using hd

theorem not_numberBlank_of_digit {c : Char} (h : isDecimalDigit c = true) :
    isNumberBlank c = false := by
  rw [isNumberBlank, Bool.and_eq_false_iff]
  left
  rw [Bool.eq_false_iff]
  intro hblank
  have hdigit := (not_digit_of_isBlank hblank).1
  simp [isDigit, h] at hdigit

/-- What stands behind a sign, or where none is, if that is all digits. -/
theorem integer_of_body {s : String} {sign : Option Char} (hne : cs ≠ [])
    (h : ∀ c ∈ cs, isDecimalDigit c = true)
    (hbody : signAndRest (s.toList.dropWhile isNumberBlank) = (decide (sign = some '-'), cs)) :
    integer s = bounded cs.length (signedValue sign cs) := by
  have hrun : cs.takeWhile (fun c ↦ isDecimalDigit c || c = '_') = cs := by
    rw [← List.append_nil cs, List.takeWhile_append_of_pos fun c hc ↦ by simp [h c hc]]
    rfl
  rw [integer]
  simp only [hbody, hrun, plainDigits?_eq hne h, natOfDigits?_eq hne h, bounded, signedValue,
    throw_eq_error]
  split
  · rfl
  · by_cases hsign : sign = some '-' <;> simp [hsign]

/-- **Digits are an integer.** -/
theorem integer_digits (hne : cs ≠ []) (h : ∀ c ∈ cs, isDecimalDigit c = true) :
    integer (String.ofList cs) = bounded cs.length (signedValue none cs) := by
  obtain ⟨c, rest, rfl⟩ := List.exists_cons_of_ne_nil hne
  have hc := h c List.mem_cons_self
  have hsign : c ≠ '-' ∧ c ≠ '+' := by
    constructor <;> rintro rfl <;> revert hc <;> decide
  refine integer_of_body hne h ?_
  rw [String.toList_ofList, List.dropWhile_cons_of_neg (by simp [not_numberBlank_of_digit hc])]
  simp [signAndRest, hsign]

/-- **Digits behind a sign are an integer.** -/
theorem integer_signed {sign : Char} (hsign : sign = '+' ∨ sign = '-') (hne : cs ≠ [])
    (h : ∀ c ∈ cs, isDecimalDigit c = true) :
    integer (String.ofList (sign :: cs)) = bounded cs.length (signedValue (some sign) cs) := by
  refine integer_of_body hne h ?_
  rw [String.toList_ofList]
  rcases hsign with rfl | rfl
  · rw [List.dropWhile_cons_of_neg (by decide)]
    rfl
  · rw [List.dropWhile_cons_of_neg (by decide)]
    rfl

end Digits

/-! ## Texts of integers -/

theorem isDigit_of_mem_toString {k : Nat} {c : Char} (h : c ∈ (toString k).toList) :
    c.isDigit = true := by
  rw [show (toString k).toList = Nat.toDigits 10 k from Nat.toList_repr] at h
  exact Nat.isDigit_of_mem_toDigits (by decide) (by decide) h

theorem toString_nat_injective {j k : Nat} (h : (toString j).toList = (toString k).toList) :
    j = k := by
  have hdigits : Nat.toDigits 10 j = Nat.toDigits 10 k := by
    rwa [← Nat.toList_repr, ← Nat.toList_repr]
  have hvalue := congrArg (Nat.ofDigitChars 10 · 0) hdigits
  simpa only [Nat.ofDigitChars_ten_toDigits] using hvalue

/-- The text of an integer is digits, with a sign in front of them or not. -/
theorem toString_int_toList (n : Int) : ∃ k : Nat,
    (n = k ∧ (toString n).toList = (toString k).toList) ∨
      (n = -k ∧ (toString n).toList = '-' :: (toString k).toList) := by
  cases n with
  | ofNat k => exact ⟨k, .inl ⟨rfl, rfl⟩⟩
  | negSucc k =>
    have htext : toString (Int.negSucc k) = "-" ++ toString (k + 1) := rfl
    exact ⟨k + 1, .inr ⟨rfl, by rw [htext, String.toList_append]; rfl⟩⟩

theorem toString_int_injective {n k : Int} (h : (toString n).toList = (toString k).toList) :
    n = k := by
  have hminus (j : Nat) : '-' ∉ (toString j).toList := fun hmem ↦
    absurd (isDigit_of_mem_toString hmem) (by decide)
  obtain ⟨i, ⟨rfl, hn⟩ | ⟨rfl, hn⟩⟩ := toString_int_toList n <;>
    obtain ⟨j, ⟨rfl, hk⟩ | ⟨rfl, hk⟩⟩ := toString_int_toList k <;>
    rw [hn, hk] at h
  · rw [toString_nat_injective h]
  · exact absurd (h ▸ List.mem_cons_self) (hminus i)
  · exact absurd (h ▸ List.mem_cons_self) (hminus j)
  · rw [toString_nat_injective (List.cons.inj h).2]

/-! ## Lengths -/

/-- An integer with few bits has few digits. -/
theorem isWritable_of_natAbs_lt {n : Int} {k : Nat} (hk : k ≤ longestInteger)
    (h : n.natAbs < Nat.pow 2 k) : isWritable n = true := by
  rw [isWritable, firstTooLarge, decide_eq_true_eq]
  generalize longestInteger = longest at hk ⊢
  have hpower : Nat.pow 2 k ≤ Nat.pow 10 longest :=
    Nat.le_trans (Nat.pow_le_pow_left (by decide) k) (Nat.pow_le_pow_right (by decide) hk)
  exact Nat.lt_of_lt_of_le h hpower

end Text
end Mensura
