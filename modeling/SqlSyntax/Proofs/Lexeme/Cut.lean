import SqlSyntax.Proofs.Lexeme.Dollars
import SqlSyntax.Proofs.Lexeme.Reread
import SqlSyntax.Proofs.Lexeme.Tiling

/-!
# Texts that are cut off

A token is read again if the text is cut off behind it, at its end or further on.  Only a mark
of two characters must not be cut apart, two dots or what starts a comment, since the token
before it may have looked at it.  No token ends inside such a mark.  So a text that is cut out
of another between the ends of two tokens has the tokens that lie there.

## Main definitions

* `Calm cs n` — no comment can start at the last of the first `n` characters.
* `Rereads read cs` — a rule reads the same of a text that is cut off behind its token.
* `CleanCut cs n m` — a cut behind `m` characters that a token of `n` characters does not see.

## Main results

* `readToken_take` — **a token is read again.**
* `startsComment_readToken` — no comment starts at the last character of a token.
-/

namespace SqlSyntax

variable {c x : Char} {cs : List Char} {n m k : Nat}

/-! ### Last characters -/

/-- The last of the first `n` characters is none that a comment starts with. -/
def Calm (cs : List Char) (n : Nat) : Prop :=
  ∃ p y t, cs = p ++ y :: t ∧ n = p.length + 1 ∧ y ≠ '-' ∧ y ≠ '/'

namespace Calm

theorem startsComment (h : Calm cs n) : startsComment (cs.drop (n - 1)) = false := by
  obtain ⟨p, y, t, rfl, rfl, hdash, hslash⟩ := h
  rw [Nat.add_sub_cancel, List.drop_left]
  exact startsComment_of_ne hdash hslash t

theorem head (hdash : c ≠ '-') (hslash : c ≠ '/') (cs : List Char) : Calm (c :: cs) 1 :=
  ⟨[], c, cs, rfl, rfl, hdash, hslash⟩

/-- What holds behind `i` characters of a text holds of the text. -/
theorem of_drop {i : Nat} (h : Calm (cs.drop i) n) : Calm cs (i + n) := by
  obtain ⟨p, y, t, hcs, rfl, hy⟩ := h
  have hlt : i < cs.length := by
    rw [← Nat.not_le, ← List.drop_eq_nil_iff, hcs]
    exact List.append_ne_nil_of_right_ne_nil p (List.cons_ne_nil y t)
  refine ⟨cs.take i ++ p, y, t, ?_, ?_, hy⟩
  · rw [List.append_assoc, ← hcs, List.take_append_drop]
  · rw [List.length_append, List.length_take_of_le (Nat.le_of_lt hlt), Nat.add_assoc]

theorem cons (h : Calm cs n) (c : Char) : Calm (c :: cs) (n + 1) := by
  have hdrop : Calm ((c :: cs).drop 1) n := h
  rw [Nat.add_comm]
  exact hdrop.of_drop

/-- A run of characters that no comment starts with. -/
theorem takeWhile {p : Char → Bool} (hdash : p '-' = false) (hslash : p '/' = false)
    (h : cs.takeWhile p ≠ []) : Calm cs (cs.takeWhile p).length := by
  obtain ⟨init, y, hinit⟩ := (List.eq_nil_or_concat _).resolve_left h
  rw [List.concat_eq_append] at hinit
  have hy : p y = true := List.mem_takeWhile_imp (l := cs) (by rw [hinit]; simp)
  refine ⟨init, y, cs.dropWhile p, ?_, ?_, ?_, ?_⟩
  · rw [← List.singleton_append, ← List.append_assoc, ← hinit, List.takeWhile_append_dropWhile]
  · rw [hinit, List.length_append, List.length_singleton]
  · rintro rfl
    rw [hdash] at hy
    cases hy
  · rintro rfl
    rw [hslash] at hy
    cases hy

theorem digitRun {radix : Nat} {inside : Bool} (h : 0 < digitRun radix inside cs) :
    Calm cs (digitRun radix inside cs) := by
  induction cs generalizing inside with
  | nil => exact absurd h (Nat.lt_irrefl 0)
  | cons c cs ih =>
    rw [SqlSyntax.digitRun] at h ⊢
    by_cases hdigit : isDigitOf radix c = true
    · rw [if_pos hdigit]
      rcases Nat.eq_zero_or_pos (SqlSyntax.digitRun radix true cs) with hzero | hpos
      · rw [hzero]
        refine .head ?_ ?_ cs
        · rintro rfl
          rw [not_isDigitOf_of_digitOf rfl] at hdigit
          cases hdigit
        · rintro rfl
          rw [not_isDigitOf_of_digitOf rfl] at hdigit
          cases hdigit
      · exact (ih hpos).cons c
    · rw [if_neg hdigit] at h ⊢
      split at h
      · next hline =>
        rw [if_pos hline]
        exact (ih (digitRun_pos_of_head? hline.2.2 inside)).cons c
      · exact absurd h (Nat.lt_irrefl 0)

theorem markedLength (h : markedLength cs = some n) : Calm cs n := by
  match cs with
  | [] => cases h
  | [c] =>
    rw [markedLength_singleton] at h
    cases h
  | c :: mark :: cs =>
    by_cases hc : c = '0'
    · subst hc
      rw [markedLength_cons] at h
      obtain ⟨radix, -, h⟩ := Option.bind_eq_some_iff.mp h
      split at h
      · cases h
      · next hdigits =>
        obtain rfl := Option.some.inj h
        rw [Nat.add_assoc]
        exact .of_drop (i := 2) (.of_drop (.digitRun (Nat.pos_of_ne_zero hdigits)))
    · rw [markedLength_of_ne hc] at h
      cases h

theorem fractionLength (h : 0 < fractionLength cs) : Calm cs (fractionLength cs) := by
  cases cs with
  | nil => exact absurd h (Nat.lt_irrefl 0)
  | cons c cs =>
    by_cases hc : c = '.'
    · subst hc
      rw [fractionLength_cons] at h ⊢
      split at h
      · exact absurd h (Nat.lt_irrefl 0)
      · next hdot =>
        rw [if_neg hdot]
        rcases Nat.eq_zero_or_pos (SqlSyntax.digitRun 10 false cs) with hzero | hpos
        · rw [hzero]
          exact .head (by decide) (by decide) cs
        · exact (digitRun hpos).cons '.'
    · rw [fractionLength_of_ne hc] at h
      exact absurd h (Nat.lt_irrefl 0)

theorem exponentLength (h : 0 < exponentLength cs) : Calm cs (exponentLength cs) := by
  cases cs with
  | nil => exact absurd h (Nat.lt_irrefl 0)
  | cons e cs =>
    rw [exponentLength_cons] at h ⊢
    split at h
    · next he =>
      split at h
      · exact absurd h (Nat.lt_irrefl 0)
      · next hdigits =>
        rw [if_pos he, if_neg hdigits, Nat.add_assoc]
        exact .of_drop (i := 1) (.of_drop (.digitRun (Nat.pos_of_ne_zero hdigits)))
    · exact absurd h (Nat.lt_irrefl 0)

theorem decimalNumeral (h : 0 < (decimalNumeral cs).length) : Calm cs (decimalNumeral cs).length := by
  simp only [SqlSyntax.decimalNumeral] at h ⊢
  generalize hw : SqlSyntax.digitRun 10 false cs = w at h ⊢
  generalize hf : SqlSyntax.fractionLength (cs.drop w) = f at h ⊢
  generalize he : SqlSyntax.exponentLength (cs.drop (w + f)) = e at h ⊢
  rcases Nat.eq_zero_or_pos e with rfl | hpos
  · rcases Nat.eq_zero_or_pos f with rfl | hpos
    · subst hw
      exact digitRun h
    · subst hf
      exact (fractionLength hpos).of_drop
  · subst he
    exact (exponentLength hpos).of_drop

theorem numeral (h : 0 < (numeral cs).length) : Calm cs (numeral cs).length := by
  unfold SqlSyntax.numeral at h ⊢
  cases hmarked : SqlSyntax.markedLength cs with
  | none =>
    rw [hmarked] at h
    exact decimalNumeral h
  | some n => exact markedLength hmarked

end Calm

/-! ### Literals -/

/-- The quote that ends a literal is its last character. -/
theorem calm_quoted {q : Char} (hdash : q ≠ '-') (hslash : q ≠ '/') {body : List Char}
    (h : quoted q cs = some (body, n)) : Calm cs n := by
  fun_induction quoted q cs generalizing body n with
  | case1 => cases h
  | case2 =>
    cases h
    exact .head hdash hslash []
  | case3 cs ih =>
    obtain ⟨⟨body', n'⟩, hr, heq⟩ := Option.map_eq_some_iff.mp h
    cases heq
    exact ((ih hr).cons _).cons _
  | case4 c cs hc =>
    cases h
    exact .head hdash hslash _
  | case5 c cs hc ih =>
    obtain ⟨⟨body', n'⟩, hr, heq⟩ := Option.map_eq_some_iff.mp h
    cases heq
    exact (ih hr).cons c

theorem quoted_take {q : Char} {body : List Char} (h : quoted q cs = some (body, n)) (hm : n ≤ m) :
    quoted q (cs.take m) = some (body, n) := by
  fun_induction quoted q cs generalizing body n m with
  | case1 => cases h
  | case2 =>
    cases h
    obtain ⟨m, rfl⟩ := Nat.exists_eq_add_of_le' hm
    rw [List.take_succ_cons, List.take_nil, quoted, if_pos rfl]
  | case3 cs ih =>
    obtain ⟨⟨body', n'⟩, hr, heq⟩ := Option.map_eq_some_iff.mp h
    cases heq
    obtain ⟨m, rfl⟩ := Nat.exists_eq_add_of_le' hm
    rw [← Nat.add_assoc, List.take_succ_cons, List.take_succ_cons]
    simp only [quoted, if_true, ih hr (Nat.le_add_left n' m), Option.map_some]
  | case4 c cs hc =>
    cases h
    obtain ⟨m, rfl⟩ := Nat.exists_eq_add_of_le' hm
    cases m with
    | zero => simp [quoted]
    | succ m => simp [quoted, hc]
  | case5 c cs hc ih =>
    obtain ⟨⟨body', n'⟩, hr, heq⟩ := Option.map_eq_some_iff.mp h
    cases heq
    obtain ⟨m, rfl⟩ := Nat.exists_eq_add_of_le' hm
    rw [← Nat.add_assoc, List.take_succ_cons]
    unfold quoted
    rw [if_neg hc, ih hr (Nat.le_add_left n' m)]
    rfl

/-- An escape string that is closed ends with a quote, behind the item that is being read. -/
theorem exists_quote_of_closed {skip : Nat} (h : (escapeBody skip cs).closed = true) :
    ∃ p t, cs = p ++ '\'' :: t ∧ (escapeBody skip cs).taken = p.length + 1 ∧ skip ≤ p.length := by
  fun_induction escapeBody skip cs with
  | case1 => cases h
  | case2 skip c cs ih =>
    obtain ⟨p, t, rfl, htaken, hskip⟩ := ih h
    exact ⟨c :: p, t, rfl, congrArg (· + 1) htaken, Nat.succ_le_succ hskip⟩
  | case3 cs hhead ih =>
    obtain ⟨p, t, rfl, htaken, hskip⟩ := ih h
    exact ⟨'\'' :: p, t, rfl, congrArg (· + 1) htaken, Nat.zero_le _⟩
  | case4 cs hhead => exact ⟨[], cs, rfl, rfl, Nat.le_refl 0⟩
  | case5 => cases h
  | case6 hquote e es item n hitem ih =>
    obtain ⟨p, t, hcs, htaken, -⟩ := ih h
    exact ⟨'\\' :: p, t, by rw [hcs]; rfl, congrArg (· + 1) htaken, Nat.zero_le _⟩
  | case7 c cs hquote hback ih =>
    obtain ⟨p, t, rfl, htaken, hskip⟩ := ih h
    exact ⟨c :: p, t, rfl, congrArg (· + 1) htaken, Nat.zero_le _⟩

theorem backslashItem_pos (c : Char) (cs : List Char) : 0 < (backslashItem c cs).2 := by
  unfold backslashItem
  repeat' split
  all_goals first | exact Nat.one_pos | exact Nat.succ_pos _ | skip
  · next hdigit => simp [countDigits, hdigit]
  · cases fixedDigits 16 4 cs <;> exact Nat.succ_pos _
  · cases fixedDigits 16 8 cs <;> exact Nat.succ_pos _

/-- An escape is read again if the quote behind it is kept. -/
theorem backslashItem_take {p t : List Char} (hm : p.length < m) :
    backslashItem c ((p ++ '\'' :: t).take m) = backslashItem c (p ++ '\'' :: t) := by
  obtain ⟨i, rfl⟩ : ∃ i, m = p.length + (i + 1) := ⟨m - p.length - 1, by omega⟩
  rw [List.take_length_add_append, List.take_succ_cons, backslashItem_append rfl,
    backslashItem_append rfl]

theorem taken_pos_of_closed {skip : Nat} (h : (escapeBody skip cs).closed = true) :
    0 < (escapeBody skip cs).taken := by
  obtain ⟨p, t, -, htaken, -⟩ := exists_quote_of_closed h
  rw [htaken]
  exact Nat.succ_pos p.length

/-- An escape in a string that is closed is read again, as the quote that ends the string stands
behind it. -/
theorem backslashItem_take_of_closed
    (h : (escapeBody (backslashItem c cs).2 (c :: cs)).closed = true)
    (hm : (escapeBody (backslashItem c cs).2 (c :: cs)).taken ≤ m + 1) :
    backslashItem c (cs.take m) = backslashItem c cs := by
  obtain ⟨p, t, hcs, htaken, hskip⟩ := exists_quote_of_closed h
  cases p with
  | nil => exact absurd hskip (Nat.not_le.mpr (backslashItem_pos c cs))
  | cons y p =>
    have hrest : cs = p ++ '\'' :: t := (List.cons.inj hcs).2
    rw [htaken, List.length_cons] at hm
    rw [hrest, backslashItem_take (Nat.le_of_succ_le_succ hm)]

/-- The body of an escape string that is closed is read again. -/
theorem escapeBody_take {skip : Nat} (h : (escapeBody skip cs).closed = true)
    (hm : (escapeBody skip cs).taken ≤ m) : escapeBody skip (cs.take m) = escapeBody skip cs := by
  induction cs generalizing skip m with
  | nil => rw [List.take_nil]
  | cons c cs ih =>
    obtain ⟨m, rfl⟩ := Nat.exists_eq_add_one.mpr (Nat.lt_of_lt_of_le (taken_pos_of_closed h) hm)
    rw [List.take_succ_cons]
    cases skip with
    | succ skip =>
      rw [escapeBody] at h hm ⊢
      rw [escapeBody, ih h (Nat.le_of_succ_le_succ hm)]
    | zero =>
      rw [escapeBody_zero] at h hm ⊢
      rw [escapeBody_zero]
      by_cases hquote : c = '\''
      · rw [if_pos hquote] at h hm ⊢
        rw [if_pos hquote]
        by_cases hhead : cs.head? = some '\''
        · rw [if_pos hhead] at h hm ⊢
          have hrest : (escapeBody 1 cs).taken ≤ m := Nat.le_of_succ_le_succ hm
          have hm0 : m ≠ 0 := Nat.ne_of_gt (Nat.lt_of_lt_of_le (taken_pos_of_closed h) hrest)
          rw [head?_take hm0, if_pos hhead, ih h hrest]
        · -- the quote ends the string, also where the text ends with it
          rw [if_neg hhead, if_neg]
          intro hcut
          cases m with
          | zero => cases hcut
          | succ m => exact hhead (by rwa [head?_take (Nat.succ_ne_zero m)] at hcut)
      · rw [if_neg hquote] at h hm ⊢
        rw [if_neg hquote]
        by_cases hback : c = '\\'
        · rw [if_pos hback] at h hm ⊢
          rw [if_pos hback]
          cases cs with
          | nil => cases h
          | cons e es =>
            have hrest : (escapeBody (backslashItem e es).2 (e :: es)).taken ≤ m :=
              Nat.le_of_succ_le_succ hm
            obtain ⟨m, rfl⟩ :=
              Nat.exists_eq_add_one.mpr (Nat.lt_of_lt_of_le (taken_pos_of_closed h) hrest)
            have hitem := backslashItem_take_of_closed h hrest
            have hbody := ih h hrest
            rw [List.take_succ_cons] at hbody ⊢
            simp only [hitem, hbody]
        · rw [if_neg hback] at h hm ⊢
          rw [if_neg hback, ih h (Nat.le_of_succ_le_succ hm)]

theorem findText_take {needle : List Char} (h : findText needle cs = some n)
    (hm : n + needle.length ≤ m) : findText needle (cs.take m) = some n := by
  induction cs generalizing n m with
  | nil => rwa [List.take_nil]
  | cons c cs ih =>
    rw [findText] at h
    split at h
    · next hstarts =>
      obtain rfl := Option.some.inj h
      rw [List.isPrefixOf_iff_prefix] at hstarts
      have hkept : needle.isPrefixOf ((c :: cs).take m) = true := by
        rw [List.isPrefixOf_iff_prefix, List.prefix_take_iff]
        exact ⟨hstarts, by omega⟩
      cases m with
      | zero => simpa [findText] using hkept
      | succ m => rw [List.take_succ_cons] at hkept ⊢; rw [findText, if_pos hkept]
    · next hstarts =>
      obtain ⟨i, hi, rfl⟩ := Option.map_eq_some_iff.mp h
      obtain ⟨m, rfl⟩ : ∃ j, m = j + 1 := ⟨m - 1, by omega⟩
      rw [List.take_succ_cons, findText, if_neg, ih hi (by omega), Option.map_some]
      intro hkept
      rw [List.isPrefixOf_iff_prefix, ← List.take_succ_cons, List.prefix_take_iff] at hkept
      exact hstarts (List.isPrefixOf_iff_prefix.mpr hkept.1)

/-! ### Dollar delimiters -/

/-- The word that may stand between two dollar signs. -/
def dollarTag (cs : List Char) : List Char :=
  if cs.head?.any isNameStart then cs.takeWhile fun c => isNamePart c && c != '$' else []

theorem dollarDelimiter_eq_ite (cs : List Char) : dollarDelimiter cs =
    if (cs.drop (1 + (dollarTag (cs.drop 1)).length)).head? = some '$' then
      some ('$' :: dollarTag (cs.drop 1) ++ ['$'])
    else none :=
  rfl

theorem dollarTag_take (m : Nat) (cs : List Char) : dollarTag (cs.take m) = (dollarTag cs).take m := by
  unfold dollarTag
  cases m with
  | zero => rfl
  | succ m =>
    rw [head?_take (Nat.succ_ne_zero m)]
    split
    · exact List.take_takeWhile.symm
    · rw [List.take_nil]

/-- A delimiter is found again where its second dollar sign is kept. -/
theorem dollarDelimiter_take (m : Nat) (cs : List Char) : dollarDelimiter (cs.take m) =
    if 1 + (dollarTag (cs.drop 1)).length < m then dollarDelimiter cs else none := by
  have htag : dollarTag ((cs.take m).drop 1) = (dollarTag (cs.drop 1)).take (m - 1) := by
    rw [List.drop_take, dollarTag_take]
  rw [dollarDelimiter_eq_ite, htag]
  by_cases hm : 1 + (dollarTag (cs.drop 1)).length < m
  · rw [if_pos hm, List.take_of_length_le (by omega), List.drop_take, head?_take (by omega),
      ← dollarDelimiter_eq_ite]
  · rw [if_neg hm, List.length_take, List.drop_take, Nat.sub_eq_zero_of_le (by omega),
      List.take_zero]
    rfl

theorem dollarDelimiter_eq_tag {delimiter : List Char} (h : dollarDelimiter cs = some delimiter) :
    delimiter = '$' :: dollarTag (cs.drop 1) ++ ['$'] := by
  rw [dollarDelimiter_eq_ite] at h
  split at h
  · exact (Option.some.inj h).symm
  · cases h

/-! ### What is seen behind a cut -/

theorem head?_of_take (h : (cs.take m).head? = some x) : cs.head? = some x := by
  cases m with
  | zero => cases h
  | succ m => rwa [head?_take (Nat.succ_ne_zero m)] at h

theorem any_head?_of_take {p : Char → Bool} (h : (cs.take m).head?.any p = true) :
    cs.head?.any p = true := by
  cases m with
  | zero => cases h
  | succ m => rwa [head?_take (Nat.succ_ne_zero m)] at h

theorem takeWhile_take {p : Char → Bool} (hm : (cs.takeWhile p).length ≤ m) :
    (cs.take m).takeWhile p = cs.takeWhile p := by
  rw [← List.take_takeWhile, List.take_of_length_le hm]

/-! ### Rules -/

/-- A cut behind `m` characters of a text that a token of `n` characters does not see.  If it is
not the end of the token, neither two dots behind it are cut apart nor the start of a comment. -/
structure CleanCut (cs : List Char) (n m : Nat) : Prop where
  le : n ≤ m
  dots : m = n + 1 → ¬ ['.', '.'] <+: cs.drop n
  comment : n < m → startsComment (cs.drop (m - 1)) = false

/-- A rule reads the same token of `cs` if the text is cut off behind it, and no comment starts at
the last character of the token, which takes at least `marks` characters. -/
structure Rereads (read : List Char → Reading) (marks : Nat) (cs : List Char) : Prop where
  take : ∀ {m}, CleanCut cs (read cs).taken m → read (cs.take m) = read cs
  last : startsComment (cs.drop ((read cs).taken - 1)) = false
  marks : marks ≤ (read cs).taken

section Rules

variable {d : Dialect} {start : Nat}

/-- A rule that reads a body in quotes behind `intro` characters, and nothing else. -/
theorem rereads_quoted {q : Char} {intro : Nat} {read : List Char → Reading}
    (hdash : q ≠ '-') (hslash : q ≠ '/')
    (hnone : quoted q (cs.drop intro) = none → (read cs).kind = .eof)
    (hsome : ∀ {r}, quoted q (cs.drop intro) = some r → (read cs).taken = intro + r.2 ∧
      ∀ cs', quoted q (cs'.drop intro) = some r → read cs' = read cs)
    (h : (read cs).kind ≠ .eof) : Rereads read intro cs := by
  cases hbody : quoted q (cs.drop intro) with
  | none => exact absurd (hnone hbody) h
  | some r =>
    obtain ⟨htaken, hsame⟩ := hsome hbody
    refine ⟨fun {m} hcut => hsame _ ?_, ?_, ?_⟩
    · have hle := hcut.le
      rw [List.drop_take]
      exact quoted_take hbody (by omega)
    · rw [htaken]
      exact (calm_quoted hdash hslash hbody).of_drop.startsComment
    · rw [htaken]
      exact Nat.le_add_right _ _

theorem rereads_readQuotedName (h : (readQuotedName d start cs).kind ≠ .eof) :
    Rereads (readQuotedName d start) 1 cs := by
  refine rereads_quoted (q := '"') (by decide) (by decide) (fun hq => ?_) (fun {r} hq => ?_) h
  · unfold readQuotedName
    rw [hq]
    rfl
  · unfold readQuotedName
    exact ⟨by rw [hq]; exact Nat.add_comm _ _, fun cs' hq' => by rw [hq, hq']⟩

theorem rereads_readPlainString {intro : Nat} (h : (readPlainString start intro cs).kind ≠ .eof) :
    Rereads (readPlainString start intro) intro cs := by
  refine rereads_quoted (q := '\'') (by decide) (by decide) (fun hq => ?_) (fun {r} hq => ?_) h
  · unfold readPlainString
    rw [hq]
    rfl
  · unfold readPlainString
    exact ⟨by rw [hq], fun cs' hq' => by rw [hq, hq']⟩

theorem rereads_readBinary (h : (readBinary start cs).kind ≠ .eof) :
    Rereads (readBinary start) 2 cs := by
  refine rereads_quoted (q := '\'') (by decide) (by decide) (fun hq => ?_) (fun {r} hq => ?_) h
  · unfold readBinary
    rw [hq]
    rfl
  · unfold readBinary
    exact ⟨by rw [hq]; exact Nat.add_comm _ _, fun cs' hq' => by rw [hq, hq']⟩

theorem rereads_readHex (h : (readHex start cs).kind ≠ .eof) : Rereads (readHex start) 2 cs := by
  refine rereads_quoted (q := '\'') (by decide) (by decide) (fun hq => ?_) (fun {r} hq => ?_) h
  · unfold readHex
    rw [hq]
    rfl
  · unfold readHex
    exact ⟨by rw [hq]; exact Nat.add_comm _ _, fun cs' hq' => by rw [hq, hq']⟩

theorem rereads_readEscapedName (h : (readEscapedName start cs).kind ≠ .eof) :
    Rereads (readEscapedName start) 3 cs := by
  refine rereads_quoted (q := '"') (by decide) (by decide) (fun hq => ?_) (fun {r} hq => ?_) h
  · unfold readEscapedName
    rw [hq]
    rfl
  · unfold readEscapedName
    exact ⟨by rw [hq]; exact Nat.add_comm _ _, fun cs' hq' => by rw [hq, hq']⟩

theorem rereads_readEscapedString (h : (readEscapedString d start cs).kind ≠ .eof) :
    Rereads (readEscapedString d start) 3 cs := by
  refine rereads_quoted (q := '\'') (by decide) (by decide) (fun hq => ?_) (fun {r} hq => ?_) h
  · unfold readEscapedString
    rw [hq]
    rfl
  · unfold readEscapedString
    exact ⟨by rw [hq]; exact Nat.add_comm _ _, fun cs' hq' => by rw [hq, hq']⟩

theorem rereads_readEscapeString {warn : Bool} {intro : Nat}
    (h : (readEscapeString warn start intro cs).kind ≠ .eof) :
    Rereads (readEscapeString warn start intro) intro cs := by
  have hclosed : (escapeBody 0 (cs.drop intro)).closed = true := by
    by_contra hopen
    unfold readEscapeString at h
    dsimp only at h
    rw [if_neg hopen] at h
    exact h rfl
  have htaken : (readEscapeString warn start intro cs).taken
      = intro + (escapeBody 0 (cs.drop intro)).taken := by
    unfold readEscapeString
    dsimp only
    rw [if_pos hclosed]
  refine ⟨fun {m} hcut => ?_, ?_, ?_⟩
  · have hle := hcut.le
    rw [htaken] at hle
    have hbody : escapeBody 0 ((cs.take m).drop intro) = escapeBody 0 (cs.drop intro) := by
      rw [List.drop_take, escapeBody_take hclosed (by omega)]
    unfold readEscapeString
    dsimp only
    rw [hbody, List.take_take, Nat.min_eq_left hle, List.take_take,
      Nat.min_eq_left (Nat.le_of_add_right_le hle), if_pos hclosed, if_pos hclosed]
  · obtain ⟨p, t, hcs, hlength, -⟩ := exists_quote_of_closed hclosed
    have hcalm : Calm (cs.drop intro) (p.length + 1) :=
      ⟨p, '\'', t, hcs, rfl, by decide, by decide⟩
    rw [htaken, hlength]
    exact hcalm.of_drop.startsComment
  · rw [htaken]
    exact Nat.le_add_right _ _

theorem rereads_readString (h : (readString d start cs).kind ≠ .eof) :
    Rereads (readString d start) 1 cs := by
  by_cases hd : d.standardStrings = true
  · have heq : readString d start = readPlainString start 1 := funext fun cs => if_pos hd
    rw [heq] at h ⊢
    exact rereads_readPlainString h
  · have heq : readString d start = readEscapeString d.escapeWarning start 1 :=
      funext fun cs => if_neg hd
    rw [heq] at h ⊢
    exact rereads_readEscapeString h

theorem readWord_taken (cs : List Char) :
    (readWord d start cs).taken = (cs.takeWhile isNamePart).length := by
  unfold readWord
  dsimp only
  split <;> rfl

theorem rereads_readWord (hc : isNamePart c = true) : Rereads (readWord d start) 1 (c :: cs) := by
  have hword : (c :: cs).takeWhile isNamePart ≠ [] := by
    rw [List.takeWhile_cons, if_pos hc]
    exact List.cons_ne_nil _ _
  refine ⟨fun {m} hcut => ?_, ?_, ?_⟩
  · have hle := hcut.le
    rw [readWord_taken] at hle
    unfold readWord
    rw [takeWhile_take hle]
  · rw [readWord_taken]
    exact (Calm.takeWhile rfl rfl hword).startsComment
  · rw [readWord_taken]
    exact List.length_pos_iff.mpr hword

/-- What runs into a token without a gap belongs to it, and so does no comment. -/
theorem calm_junk {i : Nat} (h : Calm cs i) :
    Calm cs (i + ((cs.drop i).takeWhile isNamePart).length) := by
  by_cases hjunk : (cs.drop i).takeWhile isNamePart = []
  · rw [hjunk]
    exact h
  · exact (Calm.takeWhile rfl rfl hjunk).of_drop

theorem readParam_taken (cs : List Char) : (readParam start cs).taken
    = 1 + ((cs.drop 1).takeWhile Char.isDigit).length
      + ((cs.drop (1 + ((cs.drop 1).takeWhile Char.isDigit).length)).takeWhile isNamePart).length := by
  unfold readParam
  dsimp only
  split <;> rfl

theorem rereads_readParam (hcs : (cs.drop 1).head?.any Char.isDigit = true) :
    Rereads (readParam start) 2 cs := by
  have hdigits : (cs.drop 1).takeWhile Char.isDigit ≠ [] := by
    generalize cs.drop 1 = cs at hcs
    cases cs with
    | nil => cases hcs
    | cons e es =>
      have he : e.isDigit = true := hcs
      rw [List.takeWhile_cons, if_pos he]
      exact List.cons_ne_nil _ _
  refine ⟨fun {m} hcut => ?_, ?_, ?_⟩
  · have hle := hcut.le
    rw [readParam_taken] at hle
    have hsame : ((cs.take m).drop 1).takeWhile Char.isDigit = (cs.drop 1).takeWhile Char.isDigit := by
      rw [List.drop_take, takeWhile_take (by omega)]
    unfold readParam
    dsimp only
    rw [hsame, List.drop_take, takeWhile_take (by omega), List.take_take, Nat.min_eq_left hle]
  · rw [readParam_taken]
    have hcalm : Calm (cs.drop 1) ((cs.drop 1).takeWhile Char.isDigit).length :=
      .takeWhile rfl rfl hdigits
    exact (calm_junk hcalm.of_drop).startsComment
  · have hpos := List.length_pos_iff.mpr hdigits
    rw [readParam_taken]
    omega

theorem readDollar_other (hdigit : ¬ (cs.drop 1).head?.any Char.isDigit = true)
    (hd : dollarDelimiter cs = none) : readDollar start cs = ⟨.other '$', 1, []⟩ := by
  rw [readDollar, if_neg hdigit, hd]

theorem readDollar_unclosed {delimiter : List Char}
    (hdigit : ¬ (cs.drop 1).head?.any Char.isDigit = true)
    (hd : dollarDelimiter cs = some delimiter)
    (hf : findText delimiter (cs.drop delimiter.length) = none) :
    readDollar start cs = unfinished start .unclosedDollar cs [] := by
  simp only [readDollar, if_neg hdigit, hd, hf]

theorem readDollar_string {delimiter : List Char}
    (hdigit : ¬ (cs.drop 1).head?.any Char.isDigit = true)
    (hd : dollarDelimiter cs = some delimiter)
    (hf : findText delimiter (cs.drop delimiter.length) = some n) :
    readDollar start cs = ⟨.string (String.ofList ((cs.drop delimiter.length).take n)),
      delimiter.length + n + delimiter.length, []⟩ := by
  simp only [readDollar, if_neg hdigit, hd, hf]

/-- A dollar-quoted string ends with a dollar sign. -/
theorem calm_findText {tag : List Char} (h : findText ('$' :: tag ++ ['$']) cs = some n) :
    Calm cs (n + ('$' :: tag ++ ['$']).length) := by
  have hle := findText_le h
  refine ⟨cs.take n ++ '$' :: tag, '$', cs.drop (n + ('$' :: tag ++ ['$']).length), ?_, ?_,
    by decide, by decide⟩
  · conv_lhs => rw [(firstAt_findText h).text_eq]
    simp only [List.append_assoc, List.cons_append, List.nil_append]
  · have htake : (cs.take n).length = n := List.length_take_of_le (by omega)
    show n + ('$' :: (tag ++ ['$'])).length = (cs.take n ++ '$' :: tag).length + 1
    rw [List.length_append, htake, List.length_cons, List.length_append, List.length_cons]
    rfl

/-- A string between two delimiters is read again, each of the delimiters being found again. -/
theorem rereads_readDollar_string {delimiter : List Char}
    (hkept : ∀ m, ¬ ((cs.take m).drop 1).head?.any Char.isDigit = true)
    (hd : dollarDelimiter cs = some delimiter)
    (hf : findText delimiter (cs.drop delimiter.length) = some n) :
    Rereads (readDollar start) 1 cs := by
  have hdigit : ¬ (cs.drop 1).head?.any Char.isDigit = true := by
    have h := hkept cs.length
    rwa [List.take_length] at h
  have heq : readDollar start cs = _ := readDollar_string hdigit hd hf
  have htag := dollarDelimiter_eq_tag hd
  refine ⟨fun {m} hcut => ?_, ?_, ?_⟩
  · have hle := hcut.le
    have hlength : delimiter.length = (dollarTag (cs.drop 1)).length + 2 := by
      rw [htag, List.length_append]
      rfl
    rw [heq] at hle
    dsimp only at hle
    have hd' : dollarDelimiter (cs.take m) = some delimiter := by
      rw [dollarDelimiter_take, if_pos (by omega), hd]
    have hf' : findText delimiter ((cs.take m).drop delimiter.length) = some n := by
      rw [List.drop_take, findText_take hf (by omega)]
    rw [heq, readDollar_string (hkept m) hd' hf', List.drop_take, List.take_take,
      Nat.min_eq_left (by omega)]
  · rw [heq]
    show startsComment (cs.drop (delimiter.length + n + delimiter.length - 1)) = false
    rw [Nat.add_assoc]
    exact (htag ▸ calm_findText (htag ▸ hf)).of_drop.startsComment
  · rw [heq, htag]
    exact Nat.le_add_left 1 _

theorem rereads_readDollar (h : (readDollar start ('$' :: cs)).kind ≠ .eof) :
    Rereads (readDollar start) 1 ('$' :: cs) := by
  generalize htext : '$' :: cs = text at h ⊢
  by_cases hdigit : (text.drop 1).head?.any Char.isDigit = true
  · have hparam : Rereads (readParam start) 2 text := rereads_readParam hdigit
    have heq : readDollar start text = readParam start text := if_pos hdigit
    refine ⟨fun {m} hcut => ?_, by rw [heq]; exact hparam.last,
      by rw [heq]; exact Nat.le_of_succ_le hparam.marks⟩
    rw [heq] at hcut ⊢
    have hle := Nat.le_trans hparam.marks hcut.le
    rw [readDollar, List.drop_take, head?_take (by omega), if_pos hdigit, hparam.take hcut]
  -- no parameter is read when the text is cut either
  have hkept (m : Nat) : ¬ ((text.take m).drop 1).head?.any Char.isDigit = true := by
    rw [List.drop_take]
    exact fun hcut => hdigit (any_head?_of_take hcut)
  cases hd : dollarDelimiter text with
  | none =>
    have heq : readDollar start text = _ := readDollar_other hdigit hd
    refine ⟨fun {m} _ => ?_, ?_, ?_⟩
    · rw [heq, readDollar_other (hkept m) (by rw [dollarDelimiter_take, hd, ite_self])]
    · rw [heq, ← htext]
      exact (Calm.head (by decide) (by decide) cs).startsComment
    · rw [heq]
  | some delimiter =>
    cases hf : findText delimiter (text.drop delimiter.length) with
    | none =>
      rw [readDollar_unclosed hdigit hd hf] at h
      exact absurd rfl h
    | some n => exact rereads_readDollar_string hkept hd hf

theorem readNumber_taken (cs : List Char) : (readNumber start cs).taken
    = (numeral cs).length + ((cs.drop (numeral cs).length).takeWhile isNamePart).length :=
  rfl

theorem rereads_readNumber {i : Nat} (hpos : 0 < (numeral cs).length) (hi : i ≤ (numeral cs).length) :
    Rereads (readNumber start) i cs := by
  refine ⟨fun {m} hcut => ?_, ?_, ?_⟩
  · have hle := hcut.le
    rw [readNumber_taken] at hle
    have hnumeral : numeral (cs.take m) = numeral cs := by
      refine numeral_take (by omega) ?_
      rintro hm ⟨t, ht⟩
      -- dots are no junk, so the token ends where the numeral does
      have hend : (readNumber start cs).taken = (numeral cs).length := by
        rw [readNumber_taken, ← ht]
        rfl
      exact hcut.dots (by rw [hend, hm]) ⟨t, by rw [hend, ht]⟩
    unfold readNumber
    dsimp only
    rw [hnumeral, List.drop_take, takeWhile_take (by omega), List.take_take, List.take_take,
      Nat.min_eq_left hle, Nat.min_eq_left (Nat.le_of_add_right_le hle)]
  · rw [readNumber_taken]
    exact (calm_junk (Calm.numeral hpos)).startsComment
  · rw [readNumber_taken]
    omega

/-- No comment starts at a character of an operator. -/
theorem startsComment_of_lt_operatorRun {i : Nat} (h : i < (operatorRun cs).length) :
    startsComment (cs.drop i) = false := by
  induction cs generalizing i with
  | nil => cases h
  | cons c cs ih =>
    rw [operatorRun] at h
    split at h
    · next hc =>
      cases i with
      | zero =>
        rw [Bool.and_eq_true, Bool.not_eq_true'] at hc
        exact hc.2
      | succ i => exact ih (Nat.lt_of_succ_lt_succ h)
    · cases h

theorem rereads_readOperator (hpos : 0 < (operatorChars cs).length) : Rereads readOperator 1 cs := by
  refine ⟨fun {m} hcut => ?_, ?_, hpos⟩
  · rw [readOperator, operatorChars_take hcut.le hcut.comment]
    rfl
  · have hle := (operatorChars_isPrefix cs).length_le
    exact startsComment_of_lt_operatorRun (Nat.lt_of_lt_of_le (Nat.sub_lt hpos Nat.one_pos) hle)

/-! ### The rules together -/

/-- **No comment starts at the last character of a token.** -/
theorem startsComment_readToken (hcs : startsComment (c :: cs) = false)
    (h : (readToken d start c cs).kind ≠ .eof) :
    startsComment ((c :: cs).drop ((readToken d start c cs).taken - 1)) = false := by
  have hrule := readBy_readToken d start c cs
  generalize readToken d start c cs = r at hrule h ⊢
  cases hrule with
  | string => exact (rereads_readString h).last
  | quotedName => exact (rereads_readQuotedName h).last
  | dollar hc =>
    subst hc
    exact (rereads_readDollar h).last
  | escapeString => exact (rereads_readEscapeString h).last
  | plainString => exact (rereads_readPlainString h).last
  | binary => exact (rereads_readBinary h).last
  | hex => exact (rereads_readHex h).last
  | escapedName => exact (rereads_readEscapedName h).last
  | escapedString => exact (rereads_readEscapedString h).last
  | word hc => exact (rereads_readWord (by rw [isNamePart, hc]; rfl)).last
  | number hc => exact (rereads_readNumber (numeral_pos hc) (Nat.zero_le _)).last
  | pair _ hx hnext =>
    obtain ⟨t, rfl⟩ := List.head?_eq_some_iff.mp hnext
    refine startsComment_of_ne ?_ ?_ t <;> rintro rfl <;> exact absurd hx (by decide)
  | operator hc => exact (rereads_readOperator (operatorChars_pos hc hcs)).last
  | symbol => exact hcs

/-- A token other than the end of the text, behind which the text is cut off. -/
structure Reading.IsCut (r : Reading) (cs : List Char) (m : Nat) : Prop where
  kind : r.kind ≠ .eof
  clean : CleanCut cs r.taken m

/-- Two choices between rules agree if the cut leaves what the choice that is made looks at. -/
theorem ite_eq_of_cut {p q : Prop} [Decidable p] [Decidable q] {a a' b b' : Reading}
    (h : (if p then a else b).IsCut cs m) (hback : q → p) (ha : p → a.IsCut cs m → q ∧ a' = a)
    (hb : b.IsCut cs m → b' = b) : (if q then a' else b') = if p then a else b := by
  by_cases hp : p
  · rw [if_pos hp] at h ⊢
    obtain ⟨hq, rfl⟩ := ha hp h
    rw [if_pos hq]
  · rw [if_neg hp] at h ⊢
    rw [if_neg fun hq => hp (hback hq), hb h]

theorem second_of_take (h : ((cs.take k).drop 1).head? = some x) : (cs.drop 1).head? = some x := by
  rw [List.drop_take] at h
  exact head?_of_take h

/-- A choice by the character behind the first, which the token takes. -/
theorem ite_eq_of_mark {p : Prop} [Decidable p] {read : List Char → Reading} {b b' : Reading}
    (h : (if p ∧ cs.head? = some x then read (c :: cs) else b).IsCut (c :: cs) (k + 1))
    (hread : (read (c :: cs)).kind ≠ .eof → Rereads read 2 (c :: cs))
    (hb : b.IsCut (c :: cs) (k + 1) → b' = b) :
    (if p ∧ (cs.take k).head? = some x then read (c :: cs.take k) else b')
      = if p ∧ cs.head? = some x then read (c :: cs) else b := by
  refine ite_eq_of_cut h (And.imp_right head?_of_take) (fun hc h => ?_) hb
  have hread := hread h.kind
  have hle := hread.marks.trans h.clean.le
  exact ⟨⟨hc.1, by rw [head?_take (by omega), hc.2]⟩, hread.take h.clean⟩

/-- A choice by the two characters behind the first, which the token takes. -/
theorem ite_eq_of_marks {p : Prop} [Decidable p] {read : List Char → Reading} {b b' : Reading}
    {y : Char}
    (h : (if p ∧ cs.head? = some x ∧ (cs.drop 1).head? = some y then read (c :: cs) else b).IsCut
      (c :: cs) (k + 1))
    (hread : (read (c :: cs)).kind ≠ .eof → Rereads read 3 (c :: cs))
    (hb : b.IsCut (c :: cs) (k + 1) → b' = b) :
    (if p ∧ (cs.take k).head? = some x ∧ ((cs.take k).drop 1).head? = some y then
        read (c :: cs.take k) else b')
      = if p ∧ cs.head? = some x ∧ (cs.drop 1).head? = some y then read (c :: cs) else b := by
  refine ite_eq_of_cut h (fun hq => ⟨hq.1, head?_of_take hq.2.1, second_of_take hq.2.2⟩)
    (fun hc h => ?_) hb
  have hread := hread h.kind
  have hle := hread.marks.trans h.clean.le
  exact ⟨⟨hc.1, by rw [head?_take (by omega), hc.2.1],
    by rw [List.drop_take, head?_take (by omega), hc.2.2]⟩, hread.take h.clean⟩

/-- **A token is read again if the text is cut off behind it.** -/
theorem readToken_take (hcs : startsComment (c :: cs) = false)
    (h : (readToken d start c cs).kind ≠ .eof)
    (hcut : CleanCut (c :: cs) (readToken d start c cs).taken (k + 1)) :
    readToken d start c (cs.take k) = readToken d start c cs := by
  have hcut : (readToken d start c cs).IsCut (c :: cs) (k + 1) := ⟨h, hcut⟩
  have hhead {y : Char} (hnext : cs.head? = some y) (hle : 2 ≤ k + 1) :
      (cs.take k).head? = some y := by
    rw [head?_take (by omega), hnext]
  clear h
  unfold readToken at hcut ⊢
  dsimp only at hcut ⊢
  refine ite_eq_of_cut hcut id (fun hc h => ⟨hc, ?_⟩) fun h => ?_
  · exact (rereads_readString h.kind).take h.clean
  refine ite_eq_of_cut h id (fun hc h => ⟨hc, ?_⟩) fun h => ?_
  · exact (rereads_readQuotedName h.kind).take h.clean
  refine ite_eq_of_cut h id (fun hc h => ⟨hc, ?_⟩) fun h => ?_
  · subst hc
    exact (rereads_readDollar h.kind).take h.clean
  -- the rules for constants with a mark in front of the quote
  refine ite_eq_of_mark h rereads_readEscapeString fun h => ?_
  refine ite_eq_of_mark h rereads_readPlainString fun h => ?_
  refine ite_eq_of_mark h rereads_readBinary fun h => ?_
  refine ite_eq_of_mark h rereads_readHex fun h => ?_
  refine ite_eq_of_marks h rereads_readEscapedName fun h => ?_
  refine ite_eq_of_marks h rereads_readEscapedString fun h => ?_
  refine ite_eq_of_cut h id (fun hc h => ⟨hc, ?_⟩) fun h => ?_
  · exact (rereads_readWord (by rw [isNamePart, hc]; rfl)).take h.clean
  refine ite_eq_of_cut h (Or.imp_right (And.imp_right any_head?_of_take)) (fun hc h => ?_) fun h => ?_
  · rcases hc with hc | ⟨rfl, hdigit⟩
    · exact ⟨.inl hc, (rereads_readNumber (numeral_pos (.inl hc)) (Nat.zero_le _)).take h.clean⟩
    · -- behind a point the first digit is kept with it
      obtain ⟨hrun, hlength⟩ := numeral_point hdigit
      have hread : Rereads (readNumber start) 2 ('.' :: cs) :=
        rereads_readNumber (numeral_pos (.inr ⟨rfl, hdigit⟩)) (by omega)
      have hle := hread.marks.trans h.clean.le
      exact ⟨.inr ⟨rfl, by rwa [head?_take (by omega)]⟩, hread.take h.clean⟩
  -- the pairs of characters that are one token
  refine ite_eq_of_cut h (And.imp_right head?_of_take)
    (fun hc h => ⟨⟨hc.1, hhead hc.2 h.clean.le⟩, rfl⟩) fun h => ?_
  refine ite_eq_of_cut h (And.imp_right head?_of_take)
    (fun hc h => ⟨⟨hc.1, hhead hc.2 h.clean.le⟩, rfl⟩) fun h => ?_
  refine ite_eq_of_cut h (And.imp_right head?_of_take)
    (fun hc h => ⟨⟨hc.1, hhead hc.2 h.clean.le⟩, rfl⟩) fun h => ?_
  refine ite_eq_of_cut h id (fun hc h => ⟨hc, ?_⟩) fun _ => rfl
  exact (rereads_readOperator (operatorChars_pos hc hcs)).take h.clean

end Rules

end SqlSyntax
