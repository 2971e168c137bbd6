import Mathlib.Data.List.TakeWhile
import SqlSyntax.Lexeme.Raw

/-!
# Characters that end a token

A blank, a comma, a semicolon, a parenthesis or a bracket is no part of any token
before it.  Whatever stands behind such a character, the token before it is read
as if the text ended there, unless it is a literal without its end.

## Main definitions

* `Breaks x` — the character `x` ends a token.

## Main results

* `readToken_append` — the token before a break is read as at the end of the text.
-/

namespace SqlSyntax

/-! ### Breaks -/

/-- The characters that end a token. -/
def breakChars : List Char :=
  [' ', '\t', '\n', '\r', '\x0b', '\x0c', ',', ';', ':', '(', ')', '[', ']']

/-- The character ends a token. -/
def Breaks (x : Char) : Prop :=
  x ∈ breakChars

instance : DecidablePred Breaks :=
  fun x => inferInstanceAs (Decidable (x ∈ breakChars))

/-- A character that is no digit is none in any radix. -/
theorem digitValue_of_digitOf {x : Char} (hx : digitOf x = none) (radix : Nat) : digitValue radix x = none := by
  rw [digitValue, hx]
  rfl

theorem not_isDigitOf_of_digitOf {x : Char} (hx : digitOf x = none) (radix : Nat) :
    isDigitOf radix x = false := by
  rw [isDigitOf, digitValue_of_digitOf hx]
  rfl

namespace Breaks

variable {x : Char} (h : Breaks x)

include h

/-- What is checked of all breaks. -/
theorem of_all (P : Char → Prop) [DecidablePred P]
    (hall : (breakChars.all fun y => decide (P y)) = true) : P x :=
  of_decide_eq_true (List.all_eq_true.mp hall x h)

theorem not_namePart : isNamePart x = false :=
  h.of_all (isNamePart · = false) (by decide)

theorem not_nameStart : isNameStart x = false :=
  h.of_all (isNameStart · = false) (by decide)

theorem not_digit : x.isDigit = false :=
  h.of_all (·.isDigit = false) (by decide)

theorem digitOf_eq : digitOf x = none :=
  h.of_all (digitOf · = none) (by decide)

theorem not_digitOf (radix : Nat) : isDigitOf radix x = false :=
  not_isDigitOf_of_digitOf h.digitOf_eq radix

theorem not_operatorChar : isOperatorChar x = false :=
  h.of_all (isOperatorChar · = false) (by decide)

theorem markedRadix_eq : markedRadix x = none :=
  h.of_all (markedRadix · = none) (by decide)

/-- No break is a character that has a meaning inside or between tokens. -/
theorem ne {y : Char} (hy : y ∉ breakChars) : y ≠ x := by
  rintro rfl
  exact hy h

end Breaks

/-! ### What a look ahead finds -/

variable {x : Char} {cs t : List Char}

theorem takeWhile_append_break {p : Char → Bool} (hp : p x = false) (cs t : List Char) :
    (cs ++ x :: t).takeWhile p = cs.takeWhile p := by
  induction cs with
  | nil => rw [List.nil_append, List.takeWhile_cons, hp, List.takeWhile_nil]; rfl
  | cons c cs ih => rw [List.cons_append, List.takeWhile_cons, List.takeWhile_cons, ih]

theorem head?_append_break {y : Char} (hy : y ≠ x) (cs t : List Char) :
    ((cs ++ x :: t).head? = some y) = (cs.head? = some y) := by
  cases cs with
  | nil => simp [Ne.symm hy]
  | cons c cs => rfl

theorem any_head?_append_break {p : Char → Bool} (hp : p x = false) (cs t : List Char) :
    (cs ++ x :: t).head?.any p = cs.head?.any p := by
  cases cs with
  | nil => simp [hp]
  | cons c cs => rfl

/-! ### Numerals -/

section Numerals

theorem digitRun_le (radix : Nat) (inside : Bool) (cs : List Char) :
    digitRun radix inside cs ≤ cs.length := by
  induction cs generalizing inside with
  | nil => exact Nat.le_refl 0
  | cons c cs ih =>
    rw [digitRun, List.length_cons]
    split
    · exact Nat.succ_le_succ (ih true)
    · split
      · exact Nat.succ_le_succ (ih inside)
      · exact Nat.zero_le _

theorem fractionLength_le (cs : List Char) : fractionLength cs ≤ cs.length := by
  unfold fractionLength
  split
  · next cs =>
    have hrun := digitRun_le 10 false cs
    rw [List.length_cons]
    split <;> omega
  · exact Nat.zero_le _

theorem exponentLength_le (cs : List Char) : exponentLength cs ≤ cs.length := by
  cases cs with
  | nil => exact Nat.le_refl 0
  | cons e cs =>
    rw [exponentLength, List.length_cons]
    split
    · dsimp only
      generalize (if cs.head? = some '+' ∨ cs.head? = some '-' then 1 else 0) = sign
      have hrun := digitRun_le 10 false (cs.drop sign)
      rw [List.length_drop] at hrun
      split <;> omega
    · exact Nat.zero_le _

theorem markedLength_bounds {n : Nat} (h : markedLength cs = some n) : 0 < n ∧ n ≤ cs.length := by
  unfold markedLength at h
  split at h
  · next m cs =>
    obtain ⟨radix, -, hn⟩ := Option.bind_eq_some_iff.mp h
    dsimp only at hn
    generalize (if cs.head? = some '_' then 1 else 0) = underscore at hn
    have hrun := digitRun_le radix false (cs.drop underscore)
    rw [List.length_drop] at hrun
    rw [List.length_cons, List.length_cons]
    split at hn
    · exact absurd hn (by simp)
    · next hpos =>
      rw [Option.some.injEq] at hn
      omega
  · exact absurd h (by simp)

theorem numeral_length_le (cs : List Char) : (numeral cs).length ≤ cs.length := by
  have hwhole := digitRun_le 10 false cs
  have hfraction := fractionLength_le (cs.drop (digitRun 10 false cs))
  have hexponent := exponentLength_le
    (cs.drop (digitRun 10 false cs + fractionLength (cs.drop (digitRun 10 false cs))))
  rw [List.length_drop] at hfraction hexponent
  unfold numeral
  cases hmarked : markedLength cs with
  | none =>
    show (decimalNumeral cs).length ≤ cs.length
    simp only [decimalNumeral]
    omega
  | some n => exact (markedLength_bounds hmarked).2

/-- A run of digits ends in front of what is neither a digit nor an underscore. -/
theorem digitRun_append_stop {radix : Nat} (hdigit : isDigitOf radix x = false) (hline : x ≠ '_')
    (inside : Bool) (cs t : List Char) :
    digitRun radix inside (cs ++ x :: t) = digitRun radix inside cs := by
  induction cs generalizing inside with
  | nil => simp [digitRun, hdigit, hline]
  | cons c cs ih => simp only [List.cons_append, digitRun, ih, any_head?_append_break hdigit]

variable (hx : Breaks x)

include hx

theorem digitRun_append (radix : Nat) (inside : Bool) (cs t : List Char) :
    digitRun radix inside (cs ++ x :: t) = digitRun radix inside cs :=
  digitRun_append_stop (hx.not_digitOf radix) (hx.ne (by decide)).symm inside cs t

theorem fractionLength_append (cs t : List Char) :
    fractionLength (cs ++ x :: t) = fractionLength cs := by
  have hdot : '.' ≠ x := hx.ne (by decide)
  cases cs with
  | nil => simp [fractionLength, Ne.symm hdot]
  | cons c cs =>
    by_cases hc : c = '.'
    · subst hc
      simp only [List.cons_append, fractionLength, digitRun_append hx, head?_append_break hdot]
    · simp [fractionLength, hc]

theorem exponentLength_append (cs t : List Char) :
    exponentLength (cs ++ x :: t) = exponentLength cs := by
  cases cs with
  | nil =>
    have hlower : ¬ x = 'e' := (hx.ne (by decide)).symm
    have hupper : ¬ x = 'E' := (hx.ne (by decide)).symm
    simp [exponentLength, hlower, hupper]
  | cons e cs =>
    simp only [List.cons_append, exponentLength, head?_append_break (hx.ne (y := '+') (by decide)),
      head?_append_break (hx.ne (y := '-') (by decide))]
    split
    · by_cases hsign : cs.head? = some '+' ∨ cs.head? = some '-'
      · have hlen : 1 ≤ cs.length := by
          cases cs with
          | nil => simp at hsign
          | cons c cs => simp
        simp only [if_pos hsign, List.drop_append_of_le_length hlen, digitRun_append hx]
      · simp only [if_neg hsign, List.drop_zero, digitRun_append hx]
    · rfl

theorem markedLength_append (cs t : List Char) :
    markedLength (cs ++ x :: t) = markedLength cs := by
  match cs with
  | [] =>
    have hzero : ¬ x = '0' := (hx.ne (by decide)).symm
    simp [markedLength, hzero]
  | [c] =>
    by_cases hc : c = '0'
    · subst hc
      simp [markedLength, hx.markedRadix_eq]
    · simp [markedLength, hc]
  | c :: m :: cs =>
    by_cases hc : c = '0'
    · subst hc
      simp only [List.cons_append, markedLength,
        head?_append_break (hx.ne (y := '_') (by decide))]
      congr 1
      funext radix
      by_cases hline : cs.head? = some '_'
      · have hlen : 1 ≤ cs.length := by
          cases cs with
          | nil => simp at hline
          | cons c cs => simp
        simp only [if_pos hline, List.drop_append_of_le_length hlen, digitRun_append hx]
      · simp only [if_neg hline, List.drop_zero, digitRun_append hx]
    · simp [markedLength, hc]

/-- A numeral is read up to a break. -/
theorem numeral_append (cs t : List Char) : numeral (cs ++ x :: t) = numeral cs := by
  have hdecimal : decimalNumeral (cs ++ x :: t) = decimalNumeral cs := by
    have hwhole := digitRun_le 10 false cs
    have hfraction := fractionLength_le (cs.drop (digitRun 10 false cs))
    rw [List.length_drop] at hfraction
    simp only [decimalNumeral, digitRun_append hx, List.drop_append_of_le_length hwhole,
      fractionLength_append hx]
    rw [List.drop_append_of_le_length (by omega), exponentLength_append hx]
  rw [numeral, numeral, markedLength_append hx, hdecimal]

end Numerals

/-! ### Delimited literals -/

section Delimited

theorem quoted_le {q : Char} {body : List Char} {n : Nat} (h : quoted q cs = some (body, n)) :
    0 < n ∧ n ≤ cs.length := by
  fun_induction quoted q cs generalizing body n with
  | case1 => simp at h
  | case2 =>
    simp only [Option.some.injEq, Prod.mk.injEq] at h
    simp only [List.length_cons]
    omega
  | case3 cs ih =>
    obtain ⟨⟨body', n'⟩, hr, heq⟩ := Option.map_eq_some_iff.mp h
    simp only [Prod.mk.injEq] at heq
    have := ih hr
    simp only [List.length_cons]
    omega
  | case4 =>
    simp only [Option.some.injEq, Prod.mk.injEq] at h
    simp only [List.length_cons]
    omega
  | case5 c cs hc ih =>
    obtain ⟨⟨body', n'⟩, hr, heq⟩ := Option.map_eq_some_iff.mp h
    simp only [Prod.mk.injEq] at heq
    have := ih hr
    simp only [List.length_cons]
    omega

theorem quoted_append {q : Char} (hq : q ≠ x) {r : List Char × Nat} (h : quoted q cs = some r)
    (t : List Char) : quoted q (cs ++ x :: t) = some r := by
  fun_induction quoted q cs generalizing r with
  | case1 => simp at h
  | case2 =>
    rw [← h]
    simp [quoted, Ne.symm hq]
  | case3 cs ih =>
    obtain ⟨⟨body', n'⟩, hr, heq⟩ := Option.map_eq_some_iff.mp h
    rw [← heq]
    simp [quoted, ih hr]
  | case4 c cs hc =>
    rw [← h]
    simp [quoted, hc]
  | case5 c cs hc ih =>
    obtain ⟨⟨body', n'⟩, hr, heq⟩ := Option.map_eq_some_iff.mp h
    rw [← heq, List.cons_append]
    unfold quoted
    rw [if_neg hc, ih hr]
    rfl

theorem leadingDigits_append (hx : digitOf x = none) (radix : Nat) (cs t : List Char) :
    leadingDigits radix (cs ++ x :: t) = leadingDigits radix cs := by
  induction cs with
  | nil => simp [leadingDigits, digitValue_of_digitOf hx]
  | cons c cs ih => rw [List.cons_append, leadingDigits, leadingDigits, ih]

/-- The first characters of a longer text are the same, or go on with the break. -/
theorem take_append_break (n : Nat) (cs t : List Char) :
    (cs ++ x :: t).take n = cs.take n ∨ ∃ u, (cs ++ x :: t).take n = cs.take n ++ x :: u := by
  rcases Nat.lt_or_ge cs.length n with hn | hn
  · refine .inr ⟨t.take (n - cs.length - 1), ?_⟩
    obtain ⟨k, hk⟩ : ∃ k, n - cs.length = k + 1 := ⟨n - cs.length - 1, by omega⟩
    rw [List.take_append, hk, List.take_succ_cons, Nat.add_sub_cancel]
  · exact .inl (List.take_append_of_le_length hn)

theorem leadingDigits_take_append (hx : digitOf x = none) (radix n : Nat) (cs t : List Char) :
    leadingDigits radix ((cs ++ x :: t).take n) = leadingDigits radix (cs.take n) := by
  rcases take_append_break (x := x) n cs t with h | ⟨u, h⟩ <;> rw [h]
  exact leadingDigits_append hx radix _ u

theorem fixedDigits_append (hx : digitOf x = none) (radix n : Nat) (cs t : List Char) :
    fixedDigits radix n (cs ++ x :: t) = fixedDigits radix n cs := by
  rw [fixedDigits, fixedDigits, leadingDigits_take_append hx]

theorem countDigits_append (hx : digitOf x = none) (radix limit : Nat) (cs t : List Char) :
    countDigits radix limit (cs ++ x :: t) = countDigits radix limit cs := by
  unfold countDigits
  rcases take_append_break (x := x) limit cs t with h | ⟨u, h⟩ <;> rw [h]
  rw [takeWhile_append_break (not_isDigitOf_of_digitOf hx radix)]

theorem byteItem_append (hx : digitOf x = none) (radix n : Nat) (cs t : List Char) :
    byteItem radix n (cs ++ x :: t) = byteItem radix n cs := by
  rw [byteItem, byteItem, leadingDigits_take_append hx]

theorem backslashItem_append (hx : digitOf x = none) (c : Char) (cs t : List Char) :
    backslashItem c (cs ++ x :: t) = backslashItem c cs := by
  have hcons : c :: (cs ++ x :: t) = (c :: cs) ++ x :: t := rfl
  simp only [backslashItem, hcons, countDigits_append hx, byteItem_append hx,
    fixedDigits_append hx, any_head?_append_break (not_isDigitOf_of_digitOf hx 16)]

theorem escapeBody_taken_le (skip : Nat) (cs : List Char) :
    (escapeBody skip cs).taken ≤ cs.length := by
  fun_induction escapeBody skip cs <;> simp_all [EscapeBody.skip, EscapeBody.cons]

theorem escapeBody_zero (c : Char) (cs : List Char) :
    escapeBody 0 (c :: cs) =
      if c = '\'' then
        if cs.head? = some '\'' then (escapeBody 1 cs).cons (.char '\'') else ⟨[], 1, true⟩
      else if c = '\\' then
        match cs with
        | [] => ⟨[], 1, false⟩
        | e :: es => (escapeBody (backslashItem e es).2 (e :: es)).cons (backslashItem e es).1
      else (escapeBody 0 cs).cons (.char c) :=
  escapeBody.eq_def 0 (c :: cs)

/-- The body of an escape string that is closed is read up to its end. -/
theorem escapeBody_append (hx : Breaks x) (skip : Nat) (cs t : List Char)
    (h : (escapeBody skip cs).closed = true) :
    escapeBody skip (cs ++ x :: t) = escapeBody skip cs := by
  induction cs generalizing skip with
  | nil => cases skip <;> simp [escapeBody] at h
  | cons c cs ih =>
    cases skip with
    | succ skip =>
      rw [escapeBody] at h
      rw [List.cons_append, escapeBody, escapeBody, ih skip h]
    | zero =>
      rw [escapeBody_zero] at h
      rw [List.cons_append, escapeBody_zero, escapeBody_zero]
      simp only [head?_append_break (hx.ne (y := '\'') (by decide))]
      split at h
      · next hquote =>
        rw [if_pos hquote, if_pos hquote]
        split at h
        · next hhead => rw [if_pos hhead, if_pos hhead, ih 1 h]
        · next hhead => rw [if_neg hhead, if_neg hhead]
      · next hquote =>
        rw [if_neg hquote, if_neg hquote]
        split at h
        · next hback =>
          rw [if_pos hback, if_pos hback]
          cases cs with
          | nil => simp at h
          | cons e es =>
            simp only [List.cons_append, backslashItem_append hx.digitOf_eq] at h ih ⊢
            rw [ih _ h]
        · next hback => rw [if_neg hback, if_neg hback, ih 0 h]

theorem isPrefixOf_append {needle : List Char} (hx : x ∉ needle) (cs t : List Char) :
    needle.isPrefixOf (cs ++ x :: t) = needle.isPrefixOf cs := by
  induction needle generalizing cs with
  | nil => rfl
  | cons y needle ih =>
    simp only [List.mem_cons, not_or] at hx
    cases cs with
    | nil => simp [List.isPrefixOf, Ne.symm hx.1]
    | cons c cs => rw [List.cons_append, List.isPrefixOf_cons_cons, List.isPrefixOf_cons_cons, ih hx.2]

theorem findText_append {needle : List Char} (hx : x ∉ needle) {n : Nat}
    (h : findText needle cs = some n) (t : List Char) :
    findText needle (cs ++ x :: t) = some n := by
  induction cs generalizing n with
  | nil =>
    rw [findText] at h
    split at h
    · next hempty =>
      rw [List.isEmpty_iff.mp hempty]
      simpa [findText] using h
    · exact absurd h (by simp)
  | cons c cs ih =>
    rw [findText] at h
    rw [List.cons_append, findText, ← List.cons_append, isPrefixOf_append hx]
    split at h
    · next hprefix => rw [if_pos hprefix, h]
    · next hprefix =>
      obtain ⟨m, hm, rfl⟩ := Option.map_eq_some_iff.mp h
      rw [if_neg hprefix, ih hm, Option.map_some]

theorem findText_le {needle : List Char} {n : Nat} (h : findText needle cs = some n) :
    n + needle.length ≤ cs.length := by
  induction cs generalizing n with
  | nil =>
    rw [findText] at h
    split at h
    · next hempty =>
      rw [Option.some.injEq] at h
      rw [List.isEmpty_iff.mp hempty, ← h]
      exact Nat.le_refl 0
    · exact absurd h (by simp)
  | cons c cs ih =>
    rw [findText] at h
    split at h
    · next hprefix =>
      have := (List.isPrefixOf_iff_prefix.mp hprefix).length_le
      simp only [Option.some.injEq] at h
      omega
    · obtain ⟨m, hm, rfl⟩ := Option.map_eq_some_iff.mp h
      have := ih hm
      rw [List.length_cons]
      omega

end Delimited

/-! ### Operators -/

theorem startsComment_append (hx : Breaks x) (c : Char) (cs t : List Char) :
    startsComment (c :: (cs ++ x :: t)) = startsComment (c :: cs) := by
  have hstar : ¬ x = '*' := (hx.ne (by decide)).symm
  have hminus : ¬ x = '-' := (hx.ne (by decide)).symm
  cases cs with
  | nil => simp [startsComment, hstar, hminus]
  | cons e es =>
    rw [List.cons_append]
    unfold startsComment
    split <;> split <;> simp_all

theorem operatorRun_append (hx : Breaks x) (cs t : List Char) :
    operatorRun (cs ++ x :: t) = operatorRun cs := by
  induction cs with
  | nil => simp [operatorRun, hx.not_operatorChar]
  | cons c cs ih => rw [List.cons_append, operatorRun, operatorRun, startsComment_append hx, ih]

theorem operatorChars_append (hx : Breaks x) (cs t : List Char) :
    operatorChars (cs ++ x :: t) = operatorChars cs := by
  rw [operatorChars, operatorChars, operatorRun_append hx]

theorem operatorRun_length_le (cs : List Char) : (operatorRun cs).length ≤ cs.length := by
  induction cs with
  | nil => exact Nat.le_refl 0
  | cons c cs ih =>
    rw [operatorRun]
    split
    · exact Nat.succ_le_succ ih
    · exact Nat.zero_le _

theorem dropSigns_length_le (run : List Char) : (dropSigns run).length ≤ run.length := by
  have hkept : (run.reverse.dropWhile isSign).length ≤ run.reverse.length :=
    (List.dropWhile_sublist isSign).length_le
  unfold dropSigns
  dsimp only
  split
  · rw [List.length_take]
    exact Nat.min_le_right _ _
  · rwa [List.length_reverse, ← @List.length_reverse _ run]

theorem operatorChars_length_le (cs : List Char) : (operatorChars cs).length ≤ cs.length := by
  have hrun := operatorRun_length_le cs
  have hdrop := dropSigns_length_le (operatorRun cs)
  unfold operatorChars
  dsimp only
  split <;> omega

/-! ### Rules -/

section Rules

variable {start : Nat} (hx : Breaks x)

theorem drop_append_break {n : Nat} (hn : n ≤ cs.length) :
    (cs ++ x :: t).drop n = cs.drop n ++ x :: t :=
  List.drop_append_of_le_length hn

theorem two_le_of_head {c y : Char} (h : cs.head? = some y) : 2 ≤ (c :: cs).length := by
  cases cs with
  | nil => simp at h
  | cons => simp

theorem three_le_of_head {c y : Char} (h : (cs.drop 1).head? = some y) : 3 ≤ (c :: cs).length := by
  match cs with
  | [] => simp at h
  | [_] => simp at h
  | _ :: _ :: _ => simp

include hx

theorem readWord_append (d : Dialect) :
    readWord d start (cs ++ x :: t) = readWord d start cs := by
  rw [readWord, readWord, takeWhile_append_break hx.not_namePart]

theorem readQuotedName_append (d : Dialect) (hcs : 1 ≤ cs.length)
    (h : (readQuotedName d start cs).kind ≠ .eof) :
    readQuotedName d start (cs ++ x :: t) = readQuotedName d start cs := by
  unfold readQuotedName at h ⊢
  rw [drop_append_break hcs]
  cases hq : quoted '"' (cs.drop 1) with
  | none =>
    rw [hq] at h
    exact absurd rfl h
  | some r => rw [quoted_append (hx.ne (by decide)) hq]

theorem readPlainString_append {intro : Nat} (hcs : intro ≤ cs.length)
    (h : (readPlainString start intro cs).kind ≠ .eof) :
    readPlainString start intro (cs ++ x :: t) = readPlainString start intro cs := by
  unfold readPlainString at h ⊢
  rw [drop_append_break hcs]
  cases hq : quoted '\'' (cs.drop intro) with
  | none =>
    rw [hq] at h
    exact absurd rfl h
  | some r => rw [quoted_append (hx.ne (by decide)) hq]

theorem readEscapeString_append {warn : Bool} {intro : Nat} (hcs : intro ≤ cs.length)
    (h : (readEscapeString warn start intro cs).kind ≠ .eof) :
    readEscapeString warn start intro (cs ++ x :: t) = readEscapeString warn start intro cs := by
  unfold readEscapeString at h ⊢
  dsimp only at h ⊢
  cases hclosed : (escapeBody 0 (cs.drop intro)).closed with
  | false => simp [hclosed, unfinished] at h
  | true =>
    have htaken := escapeBody_taken_le 0 (cs.drop intro)
    rw [List.length_drop] at htaken
    rw [drop_append_break hcs, escapeBody_append hx 0 _ _ hclosed,
      List.take_append_of_le_length (by omega), List.take_append_of_le_length hcs, hclosed]
    rfl

theorem readString_append (d : Dialect) (hcs : 1 ≤ cs.length)
    (h : (readString d start cs).kind ≠ .eof) :
    readString d start (cs ++ x :: t) = readString d start cs := by
  unfold readString at h ⊢
  split at h
  · next hd =>
    rw [if_pos hd, if_pos hd]
    exact readPlainString_append hx hcs h
  · next hd =>
    rw [if_neg hd, if_neg hd]
    exact readEscapeString_append hx hcs h

theorem readBinary_append (hcs : 2 ≤ cs.length) (h : (readBinary start cs).kind ≠ .eof) :
    readBinary start (cs ++ x :: t) = readBinary start cs := by
  unfold readBinary at h ⊢
  rw [drop_append_break hcs]
  cases hq : quoted '\'' (cs.drop 2) with
  | none =>
    rw [hq] at h
    exact absurd rfl h
  | some r => rw [quoted_append (hx.ne (by decide)) hq]

theorem readHex_append (hcs : 2 ≤ cs.length) (h : (readHex start cs).kind ≠ .eof) :
    readHex start (cs ++ x :: t) = readHex start cs := by
  unfold readHex at h ⊢
  rw [drop_append_break hcs]
  cases hq : quoted '\'' (cs.drop 2) with
  | none =>
    rw [hq] at h
    exact absurd rfl h
  | some r => rw [quoted_append (hx.ne (by decide)) hq]

theorem readEscapedName_append (hcs : 3 ≤ cs.length)
    (h : (readEscapedName start cs).kind ≠ .eof) :
    readEscapedName start (cs ++ x :: t) = readEscapedName start cs := by
  unfold readEscapedName at h ⊢
  rw [drop_append_break hcs]
  cases hq : quoted '"' (cs.drop 3) with
  | none =>
    rw [hq] at h
    exact absurd rfl h
  | some r => rw [quoted_append (hx.ne (by decide)) hq]

theorem readEscapedString_append (d : Dialect) (hcs : 3 ≤ cs.length)
    (h : (readEscapedString d start cs).kind ≠ .eof) :
    readEscapedString d start (cs ++ x :: t) = readEscapedString d start cs := by
  unfold readEscapedString at h ⊢
  rw [drop_append_break hcs]
  cases hq : quoted '\'' (cs.drop 3) with
  | none =>
    rw [hq] at h
    exact absurd rfl h
  | some r => rw [quoted_append (hx.ne (by decide)) hq]

theorem readParam_append (hcs : 1 ≤ cs.length) :
    readParam start (cs ++ x :: t) = readParam start cs := by
  have hdigits : ((cs.drop 1).takeWhile Char.isDigit).length ≤ cs.length - 1 := by
    rw [← List.length_drop]
    exact (List.takeWhile_sublist _).length_le
  have hjunk : ((cs.drop (1 + ((cs.drop 1).takeWhile Char.isDigit).length)).takeWhile
      isNamePart).length ≤ cs.length - (1 + ((cs.drop 1).takeWhile Char.isDigit).length) := by
    rw [← List.length_drop]
    exact (List.takeWhile_sublist _).length_le
  unfold readParam
  dsimp only
  rw [drop_append_break hcs, takeWhile_append_break hx.not_digit,
    drop_append_break (by omega), takeWhile_append_break hx.not_namePart,
    List.take_append_of_le_length (by omega)]

theorem dollarDelimiter_append (hcs : 1 ≤ cs.length) :
    dollarDelimiter (cs ++ x :: t) = dollarDelimiter cs := by
  have hpart : (isNamePart x && x != '$') = false := by simp [hx.not_namePart]
  unfold dollarDelimiter
  dsimp only
  rw [drop_append_break hcs, any_head?_append_break hx.not_nameStart,
    takeWhile_append_break hpart]
  generalize htag : (if (cs.drop 1).head?.any isNameStart = true then
    (cs.drop 1).takeWhile (fun c => isNamePart c && c != '$') else []) = tag
  have hlen : tag.length ≤ cs.length - 1 := by
    rw [← htag, ← List.length_drop]
    split
    · exact (List.takeWhile_sublist _).length_le
    · exact Nat.zero_le _
  rw [drop_append_break (by omega)]
  simp only [head?_append_break (hx.ne (y := '$') (by decide))]

omit hx in
/-- A delimiter is made of dollar signs and a word. -/
theorem dollarDelimiter_eq {delimiter : List Char} (h : dollarDelimiter cs = some delimiter) :
    ∃ tag, delimiter = '$' :: tag ++ ['$'] ∧ ∀ y ∈ tag, isNamePart y = true := by
  unfold dollarDelimiter at h
  dsimp only at h
  generalize htag : (if (cs.drop 1).head?.any isNameStart = true then
    (cs.drop 1).takeWhile (fun c => isNamePart c && c != '$') else []) = tag at h
  have hpart : ∀ y ∈ tag, isNamePart y = true := by
    rw [← htag]
    split
    · intro y hy
      have hboth := List.mem_takeWhile_imp hy
      rw [Bool.and_eq_true] at hboth
      exact hboth.1
    · intro y hy
      exact absurd hy List.not_mem_nil
  split at h
  · exact ⟨tag, (Option.some.inj h).symm, hpart⟩
  · simp at h

/-- No break occurs in the delimiter of a dollar-quoted string. -/
theorem not_mem_dollarDelimiter {delimiter : List Char} (h : dollarDelimiter cs = some delimiter) :
    x ∉ delimiter := by
  have hdollar : ¬ x = '$' := (hx.ne (by decide)).symm
  obtain ⟨tag, rfl, hpart⟩ := dollarDelimiter_eq h
  have hmem : x ∉ tag := by
    intro hmem
    have hname := hpart x hmem
    rw [hx.not_namePart] at hname
    exact Bool.noConfusion hname
  simp [hdollar, hmem]

theorem readDollar_append (hcs : 1 ≤ cs.length) (h : (readDollar start cs).kind ≠ .eof) :
    readDollar start (cs ++ x :: t) = readDollar start cs := by
  unfold readDollar at h ⊢
  rw [drop_append_break hcs, any_head?_append_break hx.not_digit, dollarDelimiter_append hx hcs]
  split
  · exact readParam_append hx hcs
  · next hdigit =>
    rw [if_neg hdigit] at h
    cases hd : dollarDelimiter cs with
    | none => rfl
    | some delimiter =>
      simp only [hd] at h ⊢
      cases hf : findText delimiter (cs.drop delimiter.length) with
      | none => simp [hf, unfinished] at h
      | some n =>
        have hle := findText_le hf
        rw [List.length_drop] at hle
        have hlen : delimiter.length ≤ cs.length := by omega
        rw [drop_append_break hlen, findText_append (not_mem_dollarDelimiter hx hd) hf]
        dsimp only
        rw [List.take_append_of_le_length (by rw [List.length_drop]; omega)]

theorem readNumber_append : readNumber start (cs ++ x :: t) = readNumber start cs := by
  have hlen := numeral_length_le cs
  have hjunk : ((cs.drop (numeral cs).length).takeWhile isNamePart).length
      ≤ cs.length - (numeral cs).length := by
    rw [← List.length_drop]
    exact (List.takeWhile_sublist _).length_le
  unfold readNumber
  dsimp only
  rw [numeral_append hx, drop_append_break hlen, takeWhile_append_break hx.not_namePart,
    List.take_append_of_le_length hlen, List.take_append_of_le_length (by omega)]

theorem readOperator_append : readOperator (cs ++ x :: t) = readOperator cs := by
  rw [readOperator, readOperator, operatorChars_append hx]

omit hx in
/-- Two choices between rules agree if they make the same choice and the rules
agree. -/
theorem ite_eq_of_ne_eof {p q : Prop} [Decidable p] [Decidable q] {a a' b b' : Reading}
    (h : (if p then a else b).kind ≠ .eof) (hpq : q = p) (ha : p → a.kind ≠ .eof → a' = a)
    (hb : b.kind ≠ .eof → b' = b) : (if q then a' else b') = if p then a else b := by
  subst hpq
  by_cases hq : q
  · rw [if_pos hq] at h
    rw [if_pos hq, if_pos hq, ha hq h]
  · rw [if_neg hq] at h
    rw [if_neg hq, if_neg hq, hb h]

/-- **A token before a break is read as at the end of the text**, unless it is a
literal without its end.  Two colons make a token of their own. -/
theorem readToken_append (d : Dialect) {c : Char} (hcolon : x = ':' → c ≠ ':')
    (h : (readToken d start c cs).kind ≠ .eof) :
    readToken d start c (cs ++ x :: t) = readToken d start c cs := by
  have hdouble : (c = ':' ∧ (cs ++ x :: t).head? = some ':') = (c = ':' ∧ cs.head? = some ':') := by
    refine propext (and_congr_right fun hc => ?_)
    rw [head?_append_break fun hx => hcolon hx.symm hc]
  have hhead : ∀ y, y ∉ breakChars →
      ((cs ++ x :: t).head? = some y) = (cs.head? = some y) :=
    fun y hy => head?_append_break (hx.ne hy) cs t
  have hamp : ∀ y, y ∉ breakChars →
      ((cs ++ x :: t).head? = some '&' ∧ ((cs ++ x :: t).drop 1).head? = some y)
        = (cs.head? = some '&' ∧ (cs.drop 1).head? = some y) := by
    intro y hy
    rw [hhead '&' (by decide)]
    refine propext (and_congr_right fun hcs => ?_)
    cases cs with
    | nil => simp at hcs
    | cons c cs => rw [List.cons_append, List.drop_one, List.drop_one, List.tail_cons,
        List.tail_cons, head?_append_break (hx.ne hy)]
  have hone : 1 ≤ (c :: cs).length := Nat.succ_pos _
  unfold readToken at h ⊢
  dsimp only at h ⊢
  rw [← List.cons_append]
  refine ite_eq_of_ne_eof h rfl (fun _ => readString_append hx d hone) fun h => ?_
  refine ite_eq_of_ne_eof h rfl (fun _ => readQuotedName_append hx d hone) fun h => ?_
  refine ite_eq_of_ne_eof h rfl (fun _ => readDollar_append hx hone) fun h => ?_
  refine ite_eq_of_ne_eof h (by rw [hhead _ (by decide)])
    (fun hc => readEscapeString_append hx (two_le_of_head hc.2)) fun h => ?_
  refine ite_eq_of_ne_eof h (by rw [hhead _ (by decide)])
    (fun hc => readPlainString_append hx (two_le_of_head hc.2)) fun h => ?_
  refine ite_eq_of_ne_eof h (by rw [hhead _ (by decide)])
    (fun hc => readBinary_append hx (two_le_of_head hc.2)) fun h => ?_
  refine ite_eq_of_ne_eof h (by rw [hhead _ (by decide)])
    (fun hc => readHex_append hx (two_le_of_head hc.2)) fun h => ?_
  refine ite_eq_of_ne_eof h (by rw [hamp _ (by decide)])
    (fun hc => readEscapedName_append hx (three_le_of_head hc.2.2)) fun h => ?_
  refine ite_eq_of_ne_eof h (by rw [hamp _ (by decide)])
    (fun hc => readEscapedString_append hx d (three_le_of_head hc.2.2)) fun h => ?_
  refine ite_eq_of_ne_eof h rfl (fun _ _ => readWord_append hx d) fun h => ?_
  refine ite_eq_of_ne_eof h (by rw [any_head?_append_break hx.not_digit])
    (fun _ _ => readNumber_append hx) fun h => ?_
  refine ite_eq_of_ne_eof h (by rw [hhead _ (by decide)]) (fun _ _ => rfl) fun h => ?_
  refine ite_eq_of_ne_eof h (by rw [hdouble]) (fun _ _ => rfl) fun h => ?_
  refine ite_eq_of_ne_eof h (by rw [hhead _ (by decide)]) (fun _ _ => rfl) fun h => ?_
  exact ite_eq_of_ne_eof h rfl (fun _ _ => readOperator_append hx) fun _ => rfl

end Rules

end SqlSyntax
