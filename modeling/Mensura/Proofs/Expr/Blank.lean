import Mensura.Proofs.Expr.Derivation
import Mensura.Proofs.Text.Blank

/-!
# Blanks around an expression

Blanks before or behind a text show in its tokens: all of them stand elsewhere, the first counts as
spaced, and so may the stop.  No reader notices.

* `Token.scan_append_blanks`, `Token.scan_blanks_append`: these are all the changes.
* `Expr.Derives.map`: what no reader of units notices leaves everything derived.
* `Expr.Derives.head`: nor does it matter whether the first token of an expression is spaced.

So a text is read as the text without the blanks around it is (`Expr.ofText_blanks`), and the
blanks before it may be dropped (`Expr.exists_cons_of_ofText`).
-/

set_option autoImplicit false

namespace Mensura

/-! ## Scanning -/

namespace Token

variable {blanks : List Char}

theorem startsNumber_append_blanks (h : ∀ c ∈ blanks, Text.isBlank c = true) (c : Char)
    (cs : List Char) : startsNumber (c :: (cs ++ blanks)) = startsNumber (c :: cs) := by
  cases cs with
  | cons d cs => rfl
  | nil =>
    cases blanks with
    | nil => rfl
    | cons b blanks =>
      simp [startsNumber, (Text.not_digit_of_isBlank (h b List.mem_cons_self)).1]

theorem startsName_append_blanks (h : ∀ c ∈ blanks, Text.isBlank c = true) (c : Char)
    (cs : List Char) : startsName (c :: (cs ++ blanks)) = startsName (c :: cs) := by
  cases cs with
  | cons d cs => rfl
  | nil =>
    cases blanks with
    | nil => rfl
    | cons b blanks =>
      simp [startsName, (Text.not_digit_of_isBlank (h b List.mem_cons_self)).2]

theorem exponentLength_le (cs : List Char) : exponentLength cs ≤ cs.length := by
  cases cs with
  | nil => simp [exponentLength]
  | cons c cs =>
    have hdigits := digitRun_le (cs.drop (signLength cs))
    have hsign := signLength_le cs
    rw [List.length_drop] at hdigits
    simp only [exponentLength, List.length_cons]
    split <;> omega

theorem numberLength_le (cs : List Char) : numberLength cs ≤ cs.length := by
  have hdigits := digitRun_le cs
  have hfraction := fractionLength_le (cs.drop (digitRun cs))
  have hexponent :=
    exponentLength_le (cs.drop (digitRun cs + fractionLength (cs.drop (digitRun cs))))
  rw [List.length_drop] at hfraction hexponent
  simp only [numberLength]
  omega

/-- A token is cut off the text in front of it. -/
theorem next?_le {c : Char} {cs : List Char} {kind : TokenKind} {text : String} {n : Nat}
    (h : next? (c :: cs) = some (kind, text, n)) : kind ≠ .stop ∧ n ≤ cs.length + 1 := by
  have hname := (List.takeWhile_prefix (l := cs) Text.isWordChar).length_le
  have hnumber := numberLength_le (c :: cs)
  rw [List.length_cons] at hnumber
  simp only [next?] at h
  split at h
  · cases h
    exact ⟨by decide, hnumber⟩
  split at h
  · cases h
    exact ⟨by decide, by omega⟩
  split at h
  · next hstar =>
    cases h
    obtain ⟨d, ds, rfl⟩ : ∃ d ds, cs = d :: ds := by
      cases cs with
      | nil => simp at hstar
      | cons d ds => exact ⟨d, ds, rfl⟩
    exact ⟨by decide, by simp⟩
  split at h
  · cases h
    exact ⟨by decide, by omega⟩
  · cases h

/-- Blanks behind a text do not change the token that it starts with. -/
theorem next?_append_blanks (h : ∀ c ∈ blanks, Text.isBlank c = true) (c : Char)
    (cs : List Char) : next? (c :: (cs ++ blanks)) = next? (c :: cs) := by
  have hhead : ∀ b ∈ blanks.head?, Text.isBlank b = true :=
    fun b hb ↦ h b (List.mem_of_mem_head? hb)
  have hnumber : numberLength (c :: (cs ++ blanks)) = numberLength (c :: cs) := by
    rw [← List.cons_append, numberLength_append]
    rw [← List.append_nil blanks]
    exact endsNumber_blanks_append h rfl
  have hword : (cs ++ blanks).takeWhile Text.isWordChar = cs.takeWhile Text.isWordChar :=
    Text.takeWhile_append_of_head fun b hb ↦ Text.not_isWordChar_of_isBlank (hhead b hb)
  have hstar : (cs ++ blanks).head? = some '*' ↔ cs.head? = some '*' := by
    cases cs with
    | cons d cs => exact Iff.rfl
    | nil =>
      refine iff_of_false (fun hb ↦ ?_) (by simp)
      exact absurd (hhead '*' hb) (by decide)
  have htake {n : Nat} (hn : n ≤ (c :: cs).length) :
      (c :: (cs ++ blanks)).take n = (c :: cs).take n := by
    rw [← List.cons_append, List.take_append_of_le_length hn]
  have hlength : 1 + (cs.takeWhile Text.isWordChar).length ≤ (c :: cs).length := by
    have := (List.takeWhile_prefix (l := cs) Text.isWordChar).length_le
    rw [List.length_cons]
    omega
  simp only [next?, startsNumber_append_blanks h, startsName_append_blanks h, hnumber, hword,
    hstar, htake (numberLength_le _), htake hlength]

/-- The stop moved behind blanks. -/
def behind (blanks : List Char) (t : Token) : Token :=
  if t.kind = .stop then
    { t with column := t.column + blanks.length, spaced := t.spaced || !blanks.isEmpty }
  else t

theorem scan_blanks (h : ∀ c ∈ blanks, Text.isBlank c = true) (column : Nat) (spaced : Bool)
    (rest : List Char) : scan 0 column spaced (blanks ++ rest) =
      scan 0 (column + blanks.length) (spaced || !blanks.isEmpty) rest := by
  induction blanks generalizing column spaced with
  | nil => simp
  | cons b blanks ih =>
    obtain ⟨hb, hblanks⟩ := List.forall_mem_cons.mp h
    rw [List.cons_append, scan_blank hb, ih hblanks, List.length_cons, Nat.add_right_comm,
      Nat.add_assoc]
    simp

/-- Blanks behind a text only move the stop. -/
theorem scan_append_blanks (h : ∀ c ∈ blanks, Text.isBlank c = true) {taken column : Nat}
    {spaced : Bool} {cs : List Char} {ts : List Token} (htaken : taken ≤ cs.length)
    (hscan : scan taken column spaced cs = .ok ts) :
    scan taken column spaced (cs ++ blanks) = .ok (ts.map (behind blanks)) := by
  induction cs generalizing taken column spaced ts with
  | nil =>
    obtain rfl : taken = 0 := by simpa using htaken
    obtain rfl : [⟨.stop, "", column, spaced⟩] = ts := by simpa [scan] using hscan
    have hblanks := scan_blanks h column spaced []
    rw [List.append_nil] at hblanks
    rw [List.nil_append, hblanks, scan]
    rfl
  | cons c cs ih =>
    cases taken with
    | succ taken =>
      rw [scan] at hscan
      rw [List.cons_append, scan]
      exact ih (by simpa using htaken) hscan
    | zero =>
      rw [scan] at hscan
      rw [List.cons_append, scan]
      split at hscan
      · next hb => rw [if_pos hb, ih (Nat.zero_le _) hscan]
      · next hb =>
        rw [if_neg hb, next?_append_blanks h]
        cases hn : next? (c :: cs) with
        | none => simp [hn] at hscan
        | some lexeme =>
          obtain ⟨kind, text, length⟩ := lexeme
          obtain ⟨hkind, hlength⟩ := next?_le hn
          simp only [hn] at hscan ⊢
          obtain ⟨tokens, htokens, hscan⟩ := bind_eq_ok.mp hscan
          obtain rfl : (⟨kind, text, column, spaced⟩ : Token) :: tokens = ts := by simpa using hscan
          simp [ih (by omega) htokens, behind, hkind]

/-- Whether a text is spaced shows in its first token. -/
theorem scan_spaced {column : Nat} {spaced : Bool} {cs : List Char} {ts : List Token}
    (hhead : ∀ c ∈ cs.head?, Text.isBlank c = false)
    (hscan : scan 0 column spaced cs = .ok ts) (spaced' : Bool) :
    ∃ t rest, ts = t :: rest ∧
      scan 0 column spaced' cs = .ok ({ t with spaced := spaced' } :: rest) := by
  cases cs with
  | nil =>
    obtain rfl : [⟨.stop, "", column, spaced⟩] = ts := by simpa [scan] using hscan
    exact ⟨_, _, rfl, by rw [scan]⟩
  | cons c cs =>
    have hc : Text.isBlank c = false := hhead c rfl
    rw [scan, if_neg (by simp [hc])] at hscan
    rw [scan, if_neg (by simp [hc])]
    cases hn : next? (c :: cs) with
    | none => simp [hn] at hscan
    | some lexeme =>
      obtain ⟨kind, text, length⟩ := lexeme
      simp only [hn] at hscan ⊢
      obtain ⟨tokens, htokens, hscan⟩ := bind_eq_ok.mp hscan
      obtain rfl : (⟨kind, text, column, spaced⟩ : Token) :: tokens = ts := by simpa using hscan
      exact ⟨_, _, rfl, by rw [htokens]; rfl⟩

end Token

/-! ## Reading -/

namespace Expr

variable {α : Type} [Scalar α] {r : Registry α}

theorem unnoticed_behind (blanks : List Char) : Unnoticed (Token.behind blanks) where
  kind t := by
    rw [Token.behind]
    split <;> rfl
  text t := by
    rw [Token.behind]
    split <;> rfl
  spaced t h := by rw [Token.behind, if_neg h]

/-- A number is read from its text. -/
theorem literalOf_congr {t u : Token} {e : Expr α} (htext : u.text = t.text)
    (h : literalOf t = .ok e) : literalOf u = .ok e := by
  rw [literalOf] at h ⊢
  dsimp only at h ⊢
  rw [htext]
  split at h
  · exact h
  · exact absurd h fail_ne_ok

theorem Settled.map {g : Token → Token} (hg : Unnoticed g) {power : Nat} {ts : List Token}
    (h : Settled α power ts) : Settled α power (ts.map g) where
  unit hs := h.unit (by rwa [hg.startsUnit_map] at hs)
  operator hs op hop := by
    rw [hg.startsUnit_map] at hs
    refine h.operator hs op ?_
    rwa [InfixOperator.ofToken?, hg.peek_isSymbol, hg.peek_isSymbol, hg.peek_isSymbol,
      hg.peek_isSymbol, hg.peek_isSymbol] at hop

/-- **What is derived does not notice a change** that the tokens do not show. -/
theorem Derives.map {g : Token → Token} (hg : Unnoticed g) {part : Part α} {ts rest : List Token}
    (h : Derives r part ts rest) : Derives r part (ts.map g) (rest.map g) := by
  induction h with
  | expression _ _ ih₁ ih₂ => exact .expression ih₁ ih₂
  | number hk hl => exact .number ((hg.kind _).trans hk) (literalOf_congr (hg.text _) hl)
  | @ident t rest hk ho =>
    rw [List.map_cons, ← hg.text t]
    exact .ident ((hg.kind t).trans hk) (by rwa [hg.opensCall_map])
  | @emptyCall t o c rest hk ho hc =>
    rw [List.map_cons, ← hg.text t]
    exact .emptyCall ((hg.kind t).trans hk) ((hg.opensCall_map (o :: c :: rest)).trans ho)
      ((hg.isSymbol c _).trans hc)
  | @call t o c es ts rest hk ho hc _ hclose ih =>
    rw [List.map_cons, ← hg.text t]
    exact .call ((hg.kind t).trans hk) ((hg.opensCall_map (o :: ts)).trans ho)
      (by rwa [hg.peek_isSymbol]) ih ((hg.isSymbol c _).trans hclose)
  | paren ho _ hclose ih =>
    exact .paren ((hg.isSymbol _ _).trans ho) ih ((hg.isSymbol _ _).trans hclose)
  | minus ho _ ih => exact .minus ((hg.isSymbol _ _).trans ho) ih
  | plus ho _ ih => exact .plus ((hg.isSymbol _ _).trans ho) ih
  | attach hs hp hu hr _ ih =>
    exact .attach (by rwa [hg.startsUnit_map]) hp (hg.unitExpr_map hu) hr ih
  | @operator power left right e op t ts mid rest hs ho hp _ _ ih₁ ih₂ =>
    refine .operator ((hg.startsUnit_map (t :: ts)).trans hs) ?_ hp ih₁ ih₂
    rwa [InfixOperator.ofToken?, hg.isSymbol, hg.isSymbol, hg.isSymbol, hg.isSymbol, hg.isSymbol]
  | settled hs => exact .settled (hs.map hg)
  | lastArgument _ hc ih => exact .lastArgument ih (by rwa [hg.peek_isSymbol])
  | moreArguments _ hc _ ih₁ ih₂ => exact .moreArguments ih₁ ((hg.isSymbol _ _).trans hc) ih₂

/-- What an expression starts with may be spaced or not. -/
theorem Derives.head {power : Nat} {e : Expr α} {t : Token} {ts rest : List Token}
    (h : Derives r (.expression power e) (t :: ts) rest) {u : Token} (hkind : u.kind = t.kind)
    (htext : u.text = t.text) : Derives r (.expression power e) (u :: ts) rest := by
  have hsymbol (s : String) : u.isSymbol s = t.isSymbol s := by
    rw [Token.isSymbol, hkind, htext, Token.isSymbol]
  cases h with
  | expression hfirst hclimb =>
    refine .expression ?_ hclimb
    cases hfirst with
    | number hk hl => exact .number (hkind.trans hk) (literalOf_congr htext hl)
    | ident hk ho => exact htext ▸ .ident (hkind.trans hk) ho
    | emptyCall hk ho hc => exact htext ▸ .emptyCall (hkind.trans hk) ho hc
    | call hk ho hc hargs hclose => exact htext ▸ .call (hkind.trans hk) ho hc hargs hclose
    | paren ho hinner hclose => exact .paren ((hsymbol _).trans ho) hinner hclose
    | minus ho hinner => exact .minus ((hsymbol _).trans ho) hinner
    | plus ho hinner => exact .plus ((hsymbol _).trans ho) hinner

/-- **Blanks around a text do not change what it is read as.** -/
theorem ofText_blanks {before cs after : List Char} {c : Char} {e : Expr α}
    (hbefore : ∀ b ∈ before, Text.isBlank b = true) (hc : Text.isBlank c = false)
    (hafter : ∀ b ∈ after, Text.isBlank b = true)
    (h : ofText r (String.ofList (c :: cs)) = .ok e) :
    ofText r (String.ofList (before ++ (c :: cs ++ after))) = .ok e := by
  obtain ⟨ts, hts, hread⟩ := ofText_eq_ok.mp h
  obtain ⟨rest, hderives, hstop⟩ := ofTokens_eq_ok.mp hread
  rw [Token.ofText, String.toList_ofList] at hts
  have hmoved := Token.scan_append_blanks hafter (Nat.zero_le _)
    (Token.scan_shift before.length hts)
  obtain ⟨t, us, hus, hscan⟩ := Token.scan_spaced (by simpa using hc) hmoved
    (false || !before.isEmpty)
  have hg := unnoticed_shift before.length
  have hg' := unnoticed_behind after
  have hderives' := (hderives.map hg).map hg'
  rw [hus] at hderives'
  refine ofText_eq_ok.mpr ⟨{ t with spaced := false || !before.isEmpty } :: us, ?_,
    ofTokens_eq_ok.mpr ⟨_, hderives'.head rfl rfl, ?_⟩⟩
  · rw [Token.ofText, String.toList_ofList, Token.scan_blanks hbefore]
    exact hscan
  · rw [hg'.peek_kind, hg.peek_kind]
    exact hstop

/-- What is read behind blanks is read by itself. -/
theorem ofText_of_blanks_append {before cs : List Char} {c : Char} {e : Expr α}
    (hbefore : ∀ b ∈ before, Text.isBlank b = true) (hc : Text.isBlank c = false)
    (h : ofText r (String.ofList (before ++ c :: cs)) = .ok e) :
    ofText r (String.ofList (c :: cs)) = .ok e := by
  obtain ⟨ts, hts, hread⟩ := ofText_eq_ok.mp h
  obtain ⟨rest, hderives, hstop⟩ := ofTokens_eq_ok.mp hread
  rw [Token.ofText, String.toList_ofList, Token.scan_blanks hbefore] at hts
  have hback : ∀ n, before.length ≤ n → n + 1 - before.length = n - before.length + 1 :=
    fun n hn ↦ Nat.sub_add_comm hn
  have hmoved := Token.scan_move (f := (· - before.length)) hback (by omega) hts
  rw [Nat.zero_add, Nat.sub_self] at hmoved
  obtain ⟨t, us, hus, hscan⟩ := Token.scan_spaced (by simpa using hc) hmoved false
  have hg := unnoticed_move (· - before.length)
  have hderives' := hderives.map hg
  rw [hus] at hderives'
  refine ofText_eq_ok.mpr ⟨{ t with spaced := false } :: us, ?_,
    ofTokens_eq_ok.mpr ⟨_, hderives'.head rfl rfl, ?_⟩⟩
  · rwa [Token.ofText, String.toList_ofList]
  · rwa [hg.peek_kind]

/-- No expression begins where its text stops. -/
theorem not_derives_stop {power : Nat} {e : Expr α} {t : Token} {rest : List Token}
    (ht : t.kind = .stop) : ¬ Derives r (.expression power e) [t] rest := by
  have hsymbol (s : String) : t.isSymbol s = false := by simp [Token.isSymbol, ht]
  intro h
  cases h with
  | expression hfirst _ =>
    cases hfirst with
    | number hk _ | ident hk _ => exact absurd (ht.symm.trans hk) (by decide)
    | paren ho _ _ | minus ho _ | plus ho _ => simp [hsymbol] at ho

/-- An expression is more than blanks, and read the same without those before it. -/
theorem exists_cons_of_ofText {cs : List Char} {e : Expr α}
    (h : ofText r (String.ofList cs) = .ok e) : ∃ d ds,
      Text.trimStart cs = d :: ds ∧ ofText r (String.ofList (d :: ds)) = .ok e := by
  obtain ⟨before, hbefore, hcs⟩ := Text.exists_trimStart_append cs
  cases htrim : Text.trimStart cs with
  | nil =>
    rw [htrim, List.append_nil] at hcs
    obtain ⟨ts, hts, hread⟩ := ofText_eq_ok.mp h
    obtain ⟨rest, hderives, -⟩ := ofTokens_eq_ok.mp hread
    have hblanks := Token.scan_blanks hbefore 0 false []
    rw [List.append_nil, ← hcs, Token.scan] at hblanks
    rw [Token.ofText, String.toList_ofList, hblanks] at hts
    obtain rfl := Except.ok.inj hts
    exact absurd hderives (not_derives_stop rfl)
  | cons d ds =>
    rw [hcs, htrim] at h
    exact ⟨d, ds, rfl, ofText_of_blanks_append hbefore (Text.not_isBlank_of_trimStart htrim) h⟩

end Expr
end Mensura
