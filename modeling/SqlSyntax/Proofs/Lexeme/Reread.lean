import Mathlib.Data.List.DropRight
import Mathlib.Data.List.Infix
import SqlSyntax.Proofs.Lexeme.Taken

/-!
# Reading again what was taken

A numeral or an operator is the longest one at the start of a text.  If the text is cut
behind it, at its end or further on, the same one is read again.  Only a mark of two
characters must not be cut apart: two dots behind a numeral, or what starts a comment.

## Main results

* `digitRun_take` — a run of digits does not depend on what is cut off behind it.
* `numeral_take` — **a numeral is read again.**
* `operatorChars_of_isPrefix`, `operatorChars_take` — **an operator is read again.**
-/

namespace SqlSyntax

/-! ### Numerals -/

/-- The beginning of a text starts with the same character, if it has any. -/
theorem head?_take {m : Nat} (hm : m ≠ 0) (cs : List Char) : (cs.take m).head? = cs.head? := by
  cases cs with
  | nil => rw [List.take_nil]
  | cons c cs =>
    cases m with
    | zero => exact absurd rfl hm
    | succ m => rfl

theorem digitRun_pos_of_head? {radix : Nat} {cs : List Char}
    (h : cs.head?.any (isDigitOf radix) = true) (inside : Bool) : 0 < digitRun radix inside cs := by
  cases cs with
  | nil => cases h
  | cons c cs =>
    have hc : isDigitOf radix c = true := h
    rw [digitRun, if_pos hc]
    exact Nat.succ_pos _

/-- A run of digits is read again if the text is cut behind it. -/
theorem digitRun_take (radix : Nat) (inside : Bool) (cs : List Char) {m : Nat}
    (hm : digitRun radix inside cs ≤ m) :
    digitRun radix inside (cs.take m) = digitRun radix inside cs := by
  induction cs generalizing inside m with
  | nil => rw [List.take_nil]
  | cons c cs ih =>
    cases m with
    | zero => exact (Nat.le_zero.mp hm).symm
    | succ m =>
      rw [List.take_succ_cons]
      simp only [digitRun] at hm ⊢
      by_cases hdigit : isDigitOf radix c = true
      · rw [if_pos hdigit] at hm ⊢
        rw [if_pos hdigit, ih true (Nat.le_of_succ_le_succ hm)]
      · rw [if_neg hdigit] at hm ⊢
        rw [if_neg hdigit]
        by_cases hline : c = '_' ∧ inside = true ∧ cs.head?.any (isDigitOf radix) = true
        · -- the digit behind the underscore belongs to the run, so it is not cut off
          rw [if_pos hline] at hm ⊢
          have hpos := digitRun_pos_of_head? hline.2.2 inside
          have hm : digitRun radix inside cs ≤ m := Nat.le_of_succ_le_succ hm
          rw [head?_take (by omega), if_pos hline, ih inside hm]
        · rw [if_neg hline, if_neg]
          rintro ⟨hc, hinside, hhead⟩
          refine hline ⟨hc, hinside, ?_⟩
          cases m with
          | zero => cases hhead
          | succ m => rwa [head?_take (Nat.succ_ne_zero m)] at hhead

/-- The underscore that may follow a radix mark. -/
def leadingLine (cs : List Char) : Nat :=
  if cs.head? = some '_' then 1 else 0

theorem markedLength_cons (m : Char) (cs : List Char) :
    markedLength ('0' :: m :: cs) = (markedRadix m).bind fun radix =>
      if digitRun radix false (cs.drop (leadingLine cs)) = 0 then none
      else some (2 + leadingLine cs + digitRun radix false (cs.drop (leadingLine cs))) :=
  rfl

theorem markedLength_of_ne {c : Char} (hc : c ≠ '0') (cs : List Char) :
    markedLength (c :: cs) = none := by
  unfold markedLength
  split
  · next heq => exact absurd (List.cons.inj heq).1 hc
  · rfl

theorem markedLength_singleton (c : Char) : markedLength [c] = none := by
  unfold markedLength
  split
  · next heq => cases heq
  · rfl

theorem markedLength_of_forall {cs : List Char} (h : ∀ c ∈ cs, markedRadix c = none) :
    markedLength cs = none := by
  match cs with
  | [] => rfl
  | [c] => exact markedLength_singleton c
  | c :: m :: cs =>
    by_cases hc : c = '0'
    · subst hc
      rw [markedLength_cons, h m (List.mem_cons_of_mem _ List.mem_cons_self)]
      rfl
    · exact markedLength_of_ne hc _

/-- Without digits behind its radix mark, a text has none either if it is cut off. -/
theorem markedLength_take_none {cs : List Char} (h : markedLength cs = none) (k : Nat) :
    markedLength (cs.take k) = none := by
  match cs, k with
  | [], _ => rw [List.take_nil]; rfl
  | _ :: _, 0 => rfl
  | c :: cs, 1 =>
    rw [List.take_succ_cons, List.take_zero]
    exact markedLength_singleton c
  | c :: [], k + 2 => rwa [List.take_of_length_le (Nat.le_add_left 1 (k + 1))]
  | c :: m :: cs, k + 2 =>
    by_cases hc : c = '0'
    · subst hc
      rw [List.take_succ_cons, List.take_succ_cons, markedLength_cons]
      rw [markedLength_cons] at h
      cases hradix : markedRadix m with
      | none => rfl
      | some radix =>
        rw [hradix, Option.bind_some, ite_eq_left_iff] at h
        have hnone : digitRun radix false (cs.drop (leadingLine cs)) = 0 :=
          Classical.byContradiction fun hne => by cases h hne
        rw [Option.bind_some, if_pos]
        by_cases hk : k = 0
        · subst hk
          rfl
        · rw [leadingLine, head?_take hk, ← leadingLine, List.drop_take,
            digitRun_take radix false _ (by omega), hnone]
    · exact markedLength_of_ne hc _

theorem markedLength_take_some {cs : List Char} {n m : Nat} (h : markedLength cs = some n)
    (hm : n ≤ m) : markedLength (cs.take m) = some n := by
  match cs with
  | [] => cases h
  | [c] =>
    rw [markedLength_singleton] at h
    cases h
  | c :: mark :: cs =>
    by_cases hc : c = '0'
    · subst hc
      rw [markedLength_cons] at h
      cases hradix : markedRadix mark with
      | none =>
        rw [hradix] at h
        cases h
      | some radix =>
        rw [hradix, Option.bind_some] at h
        split at h
        · cases h
        · next hdigits =>
          have hn := Option.some.inj h
          obtain ⟨k, rfl⟩ : ∃ k, m = k + 2 := ⟨m - 2, by omega⟩
          -- there are digits, so a leading underscore is not cut off
          have hline : leadingLine (cs.take k) = leadingLine cs := by
            rw [leadingLine, head?_take (by omega), ← leadingLine]
          have hrun : digitRun radix false ((cs.take k).drop (leadingLine cs))
              = digitRun radix false (cs.drop (leadingLine cs)) := by
            rw [List.drop_take, digitRun_take radix false _ (by omega)]
          rw [List.take_succ_cons, List.take_succ_cons, markedLength_cons, hradix,
            Option.bind_some, hline, hrun, if_neg hdigits, h]
    · rw [markedLength_of_ne hc] at h
      cases h

theorem fractionLength_cons (cs : List Char) : fractionLength ('.' :: cs) =
    if cs.head? = some '.' then 0 else digitRun 10 false cs + 1 :=
  rfl

theorem fractionLength_of_ne {c : Char} (hc : c ≠ '.') (cs : List Char) :
    fractionLength (c :: cs) = 0 := by
  unfold fractionLength
  split
  · next heq => exact absurd (List.cons.inj heq).1 hc
  · rfl

/-- The sign that may follow the letter of an exponent. -/
def leadingSign (cs : List Char) : Nat :=
  if cs.head? = some '+' ∨ cs.head? = some '-' then 1 else 0

theorem exponentLength_cons (e : Char) (cs : List Char) : exponentLength (e :: cs) =
    if e = 'e' ∨ e = 'E' then
      if digitRun 10 false (cs.drop (leadingSign cs)) = 0 then 0
      else 1 + leadingSign cs + digitRun 10 false (cs.drop (leadingSign cs))
    else 0 :=
  rfl

theorem fractionLength_dots (cs : List Char) : fractionLength ('.' :: '.' :: cs) = 0 :=
  rfl

theorem exponentLength_dot (cs : List Char) : exponentLength ('.' :: cs) = 0 :=
  rfl

/-- A fraction is read again, unless the second of two dots is cut off. -/
theorem fractionLength_take {cs : List Char} {m : Nat} (hm : fractionLength cs ≤ m)
    (hdots : m = 1 → ¬ ['.', '.'] <+: cs) : fractionLength (cs.take m) = fractionLength cs := by
  cases cs with
  | nil => rw [List.take_nil]
  | cons c cs =>
    by_cases hc : c = '.'
    · subst hc
      rw [fractionLength_cons] at hm ⊢
      by_cases hdot : cs.head? = some '.'
      · rw [if_pos hdot]
        match m with
        | 0 => rfl
        | 1 =>
          obtain ⟨rest, rfl⟩ := List.head?_eq_some_iff.mp hdot
          exact absurd ⟨rest, rfl⟩ (hdots rfl)
        | m + 2 => rw [List.take_succ_cons, fractionLength_cons, head?_take (Nat.succ_ne_zero m),
            if_pos hdot]
      · rw [if_neg hdot] at hm ⊢
        obtain ⟨k, rfl⟩ : ∃ k, m = k + 1 := ⟨m - 1, by omega⟩
        rw [List.take_succ_cons, fractionLength_cons,
          digitRun_take 10 false cs (Nat.le_of_succ_le_succ hm), if_neg]
        intro hhead
        cases k with
        | zero => cases hhead
        | succ k => exact hdot (by rwa [head?_take (Nat.succ_ne_zero k)] at hhead)
    · rw [fractionLength_of_ne hc]
      cases m with
      | zero => rfl
      | succ m =>
        rw [List.take_succ_cons]
        exact fractionLength_of_ne hc _

/-- An exponent is read again. -/
theorem exponentLength_take {cs : List Char} {m : Nat} (hm : exponentLength cs ≤ m) :
    exponentLength (cs.take m) = exponentLength cs := by
  match cs, m with
  | [], _ => rw [List.take_nil]
  | e :: cs, 0 => exact (Nat.le_zero.mp hm).symm
  | e :: cs, m + 1 =>
    rw [List.take_succ_cons]
    rw [exponentLength_cons] at hm ⊢
    by_cases he : e = 'e' ∨ e = 'E'
    · rw [if_pos he] at hm ⊢
      rw [exponentLength_cons, if_pos he]
      by_cases hdigits : digitRun 10 false (cs.drop (leadingSign cs)) = 0
      · rw [if_pos hdigits, if_pos]
        cases m with
        | zero => rfl
        | succ m =>
          rw [leadingSign, head?_take (Nat.succ_ne_zero m), ← leadingSign, List.drop_take,
            digitRun_take 10 false _ (by omega), hdigits]
      · rw [if_neg hdigits] at hm ⊢
        -- there are digits, so a leading sign is not cut off
        have hsign : leadingSign (cs.take m) = leadingSign cs := by
          rw [leadingSign, head?_take (by omega), ← leadingSign]
        rw [hsign, List.drop_take, digitRun_take 10 false _ (by omega), if_neg hdigits]
    · rw [if_neg he, exponentLength_cons, if_neg he]

theorem decimalNumeral_take {cs : List Char} {m : Nat} (hm : (decimalNumeral cs).length ≤ m)
    (hdots : m = (decimalNumeral cs).length + 1 →
      ¬ ['.', '.'] <+: cs.drop (decimalNumeral cs).length) :
    decimalNumeral (cs.take m) = decimalNumeral cs := by
  obtain ⟨w, hw⟩ : ∃ w, digitRun 10 false cs = w := ⟨_, rfl⟩
  obtain ⟨f, hf⟩ : ∃ f, fractionLength (cs.drop w) = f := ⟨_, rfl⟩
  obtain ⟨e, he⟩ : ∃ e, exponentLength (cs.drop (w + f)) = e := ⟨_, rfl⟩
  have hlength : (decimalNumeral cs).length = w + f + e := by
    simp only [decimalNumeral, hw, hf, he]
  rw [hlength] at hm hdots
  have hwhole : digitRun 10 false (cs.take m) = w := by
    rw [digitRun_take 10 false cs (by omega), hw]
  have hfraction : fractionLength ((cs.take m).drop w) = f := by
    rw [List.drop_take, fractionLength_take (by omega), hf]
    -- two dots behind the digits are neither a fraction nor an exponent
    rintro hone ⟨rest, hrest⟩
    have hzero : f = 0 := by rw [← hf, ← hrest]; exact fractionLength_dots rest
    subst hzero
    have hexponent : e = 0 := by rw [← he, Nat.add_zero, ← hrest]; exact exponentLength_dot _
    subst hexponent
    exact hdots (by omega) ⟨rest, hrest⟩
  have hexponent : exponentLength ((cs.take m).drop (w + f)) = e := by
    rw [List.drop_take, exponentLength_take (by omega), he]
  simp only [decimalNumeral, hw, hf, he, hwhole, hfraction, hexponent]

/-- **A numeral is read again**, unless the second of two dots behind it is cut off. -/
theorem numeral_take {cs : List Char} {m : Nat} (hm : (numeral cs).length ≤ m)
    (hdots : m = (numeral cs).length + 1 → ¬ ['.', '.'] <+: cs.drop (numeral cs).length) :
    numeral (cs.take m) = numeral cs := by
  unfold numeral at hm hdots ⊢
  cases hmarked : markedLength cs with
  | none =>
    rw [hmarked] at hm hdots
    rw [markedLength_take_none hmarked]
    exact decimalNumeral_take hm hdots
  | some n =>
    rw [hmarked] at hm
    rw [markedLength_take_some hmarked hm]
    rfl

theorem numeral_take_length (cs : List Char) :
    numeral (cs.take (numeral cs).length) = numeral cs :=
  numeral_take (Nat.le_refl _) fun h => absurd h (Nat.ne_of_lt (Nat.lt_succ_self _))

/-- A numeral that starts with a point goes on with digits, and maybe with an exponent. -/
theorem numeral_point {cs : List Char} (hcs : cs.head?.any Char.isDigit = true) :
    0 < digitRun 10 false cs ∧ (numeral ('.' :: cs)).length = digitRun 10 false cs + 1
      + exponentLength (('.' :: cs).drop (digitRun 10 false cs + 1)) := by
  have hmarked : markedLength ('.' :: cs) = none := markedLength_of_ne (by decide) cs
  have hzero : digitRun 10 false ('.' :: cs) = 0 := by
    rw [digitRun, if_neg (by decide), if_neg fun hline => absurd hline.1 (by decide)]
  have hdot : cs.head? ≠ some '.' := by
    intro hdot
    rw [hdot] at hcs
    cases hcs
  refine ⟨?_, ?_⟩
  · cases cs with
    | nil => cases hcs
    | cons e es => exact digitRun_pos false es hcs
  · simp only [numeral, hmarked, Option.elim, decimalNumeral, hzero, List.drop_zero,
      fractionLength_cons, if_neg hdot, Nat.zero_add]

/-! ### Operators -/

theorem operatorRun_isPrefix (cs : List Char) : operatorRun cs <+: cs := by
  induction cs with
  | nil => exact List.prefix_rfl
  | cons c cs ih =>
    rw [operatorRun]
    split
    · exact (List.prefix_cons_inj c).mpr ih
    · exact List.nil_prefix

/-- No comment starts where a text is cut if none starts there in the whole text. -/
theorem startsComment_of_prefix {c : Char} {p cs : List Char} (hp : p <+: cs)
    (h : startsComment (c :: cs) = false) : startsComment (c :: p) = false := by
  cases p with
  | nil => simp [startsComment]
  | cons e p =>
    obtain ⟨t, rfl⟩ := hp
    rw [List.cons_append] at h
    unfold startsComment at h ⊢
    split at h <;> simp_all

/-- Two characters say whether a comment starts. -/
theorem startsComment_cons_cons (c e : Char) (cs cs' : List Char) :
    startsComment (c :: e :: cs) = startsComment (c :: e :: cs') := by
  unfold startsComment
  split <;> split <;> simp_all

/-- The beginning of a run of operator characters is such a run. -/
theorem operatorRun_eq_of_prefix {p cs : List Char} (hp : p <+: operatorRun cs) :
    operatorRun p = p := by
  induction cs generalizing p with
  | nil => rw [List.prefix_nil.mp hp, operatorRun]
  | cons c cs ih =>
    cases p with
    | nil => rfl
    | cons e p =>
      rw [operatorRun] at hp
      by_cases hc : (isOperatorChar c && !startsComment (c :: cs)) = true
      · rw [if_pos hc, List.cons_prefix_cons] at hp
        obtain ⟨rfl, hp⟩ := hp
        rw [Bool.and_eq_true, Bool.not_eq_true'] at hc
        have hcomment : startsComment (e :: p) = false :=
          startsComment_of_prefix (hp.trans (operatorRun_isPrefix cs)) hc.2
        rw [operatorRun, if_pos (by rw [hc.1, hcomment]; rfl), ih hp]
      · rw [if_neg hc, List.prefix_nil] at hp
        cases hp

theorem dropSigns_isPrefix (run : List Char) : dropSigns run <+: run := by
  unfold dropSigns
  dsimp only
  split
  · exact List.take_prefix 1 run
  · have hsuffix := List.dropWhile_suffix (l := run.reverse) isSign
    rw [← List.reverse_prefix, List.reverse_reverse] at hsuffix
    exact hsuffix

theorem dropSigns_eq (run : List Char) :
    dropSigns run = if run.rdropWhile isSign = [] then run.take 1 else run.rdropWhile isSign := by
  rw [dropSigns]
  exact if_congr List.isEmpty_iff rfl rfl

/-- A text between what is left without its end and the whole is left with the same. -/
theorem rdropWhile_of_isPrefix {f : Char → Bool} {p cs : List Char} (hleft : cs.rdropWhile f <+: p)
    (hp : p <+: cs) : p.rdropWhile f = cs.rdropWhile f := by
  obtain ⟨e, rfl⟩ := hleft
  have hend : e <+: cs.rtakeWhile f :=
    (List.prefix_append_right_inj (cs.rdropWhile f)).mp
      (by rwa [List.rdropWhile_append_rtakeWhile])
  have hall : ∀ c ∈ e.reverse, f c = true := fun c hc =>
    List.mem_rtakeWhile_imp (hend.subset (List.mem_reverse.mp hc))
  rw [List.rdropWhile, List.reverse_append, List.dropWhile_append_of_pos hall, ← List.rdropWhile,
    List.rdropWhile_idempotent]

/-- Between what is left without the signs at the end and the whole run, the same is left. -/
theorem dropSigns_of_isPrefix {p run : List Char} (hleft : dropSigns run <+: p) (hp : p <+: run) :
    dropSigns p = dropSigns run := by
  rw [dropSigns_eq] at hleft ⊢
  rw [dropSigns_eq run]
  by_cases hsigns : run.rdropWhile isSign = []
  · -- all characters are signs, of which the first is left
    rw [if_pos hsigns] at hleft ⊢
    rw [if_pos ((rdropWhile_of_isPrefix (hsigns ▸ List.nil_prefix) hp).trans hsigns)]
    have hone := hleft.take 1
    rw [List.take_take, Nat.min_self] at hone
    exact (hp.take 1).eq_of_length_le hone.length_le
  · rw [if_neg hsigns] at hleft ⊢
    have hsame := rdropWhile_of_isPrefix hleft hp
    rw [if_neg (by rwa [hsame]), hsame]

theorem operatorChars_isPrefix (cs : List Char) : operatorChars cs <+: operatorRun cs := by
  unfold operatorChars
  dsimp only
  split
  · exact List.prefix_rfl
  · exact dropSigns_isPrefix _

/-- What contains an operator and is part of its run is read as the same operator. -/
theorem operatorChars_of_isPrefix {p cs : List Char} (hop : operatorChars cs <+: p)
    (hp : p <+: operatorRun cs) : operatorChars p = operatorChars cs := by
  have hrun : operatorRun p = p := operatorRun_eq_of_prefix hp
  rw [operatorChars, hrun]
  by_cases hkeeps : (operatorRun cs).any keepsSign = true
  · have heq : operatorChars cs = operatorRun cs := if_pos hkeeps
    rw [heq] at hop ⊢
    obtain rfl : p = operatorRun cs := hp.eq_of_length_le hop.length_le
    exact if_pos hkeeps
  · have heq : operatorChars cs = dropSigns (operatorRun cs) := if_neg hkeeps
    -- a part of the run has no such character either
    have hnone : ¬ p.any keepsSign = true := by
      intro hany
      obtain ⟨c, hc, hkeep⟩ := List.any_eq_true.mp hany
      exact hkeeps (List.any_eq_true.mpr ⟨c, hp.subset hc, hkeep⟩)
    rw [heq] at hop ⊢
    exact (if_neg hnone).trans (dropSigns_of_isPrefix hop hp)

/-- An operator is read again. -/
theorem operatorChars_idem (cs : List Char) :
    operatorChars (operatorChars cs) = operatorChars cs :=
  operatorChars_of_isPrefix List.prefix_rfl (operatorChars_isPrefix cs)

/-- A run of operator characters is read again if more than the run is kept and no comment starts at
the last character that is. -/
theorem operatorRun_take {cs : List Char} {m : Nat} (hm : (operatorRun cs).length < m)
    (hcomment : startsComment (cs.drop (m - 1)) = false) :
    operatorRun (cs.take m) = operatorRun cs := by
  induction cs generalizing m with
  | nil => rw [List.take_nil]
  | cons c cs ih =>
    obtain ⟨k, rfl⟩ : ∃ k, m = k + 1 := ⟨m - 1, by omega⟩
    rw [Nat.add_sub_cancel] at hcomment
    rw [List.take_succ_cons]
    rw [operatorRun] at hm ⊢
    rw [operatorRun]
    by_cases hc : (isOperatorChar c && !startsComment (c :: cs)) = true
    · rw [if_pos hc, List.length_cons] at hm
      obtain ⟨j, rfl⟩ : ∃ j, k = j + 1 := ⟨k - 1, by omega⟩
      have hboth := hc
      rw [Bool.and_eq_true, Bool.not_eq_true'] at hboth
      have hcut : startsComment (c :: cs.take (j + 1)) = false :=
        startsComment_of_prefix (List.take_prefix (j + 1) cs) hboth.2
      rw [if_pos hc, if_pos (by rw [hboth.1, hcut]; rfl), ih (by omega) hcomment]
    · rw [if_neg hc, if_neg]
      cases k with
      | zero =>
        -- no comment starts here, so the character is no operator's
        rw [List.drop_zero] at hcomment
        rw [hcomment, Bool.not_false, Bool.and_true] at hc
        rw [Bool.and_eq_true]
        exact fun h => hc h.1
      | succ k =>
        cases cs with
        | nil => exact hc
        | cons e cs => rwa [List.take_succ_cons, startsComment_cons_cons c e _ cs]

/-- **An operator is read again** if no comment starts at the last character that is kept. -/
theorem operatorChars_take {cs : List Char} {m : Nat} (hm : (operatorChars cs).length ≤ m)
    (hcomment : (operatorChars cs).length < m → startsComment (cs.drop (m - 1)) = false) :
    operatorChars (cs.take m) = operatorChars cs := by
  rcases Nat.lt_or_ge (operatorRun cs).length m with hlt | hge
  · have hshort : (operatorChars cs).length < m :=
      Nat.lt_of_le_of_lt (operatorChars_isPrefix cs).length_le hlt
    rw [operatorChars, operatorRun_take hlt (hcomment hshort)]
    rfl
  · have hrun : cs.take m <+: operatorRun cs :=
      List.prefix_of_prefix_length_le (List.take_prefix m cs) (operatorRun_isPrefix cs)
        ((List.length_take_le m cs).trans hge)
    refine operatorChars_of_isPrefix ?_ hrun
    refine List.prefix_of_prefix_length_le
      ((operatorChars_isPrefix cs).trans (operatorRun_isPrefix cs)) (List.take_prefix m cs) ?_
    rw [List.length_take]
    exact Nat.le_min.mpr ⟨hm, ((operatorChars_isPrefix cs).trans (operatorRun_isPrefix cs)).length_le⟩

end SqlSyntax
