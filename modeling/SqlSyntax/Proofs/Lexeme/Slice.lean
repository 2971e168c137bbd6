import SqlSyntax.Proofs.Lexeme.Cut

/-!
# Slices of texts

A text that is cut out of another from the start of a token to the end of one has the tokens
that lie there, and no others: those before do not reach into it, and those inside do not look
beyond its end.

## Main definitions

* `CutBehind d offset cs run rest m` — a cut between the lexemes `run` and `rest` of a text.

## Main results

* `firstLexeme_take` — the first token is read again if the text is cut off behind it.
* `exists_cutBehind` — the beginning of a text up to the end of a token has the lexemes up to it.
* `rawLexemes_slice` — **the lexemes of a slice.**
-/

namespace SqlSyntax

variable {d : Dialect} {offset : Nat} {cs : List Char} {n m k : Nat}

/-! ### Gaps -/

/-- A text that does not go on with a character does not do so either if it is cut off. -/
theorem take_ne_cons {y : Char} (h : ∀ u, cs = y :: u → False) : ∀ u, cs.take k = y :: u → False := by
  intro u hu
  obtain ⟨t, ht⟩ := List.head?_eq_some_iff.mp (head?_of_take (by rw [hu]; rfl))
  exact h t ht

theorem le_of_gapFrom {st : GapState} (h : gapFrom st n cs = .closed m) : n ≤ m := by
  obtain ⟨i, -, rfl, -⟩ := gapStops_gapFrom h
  exact Nat.le_add_right n i

/-- A gap is skipped again if more of the text is kept. -/
theorem gapFrom_take {st : GapState} (h : gapFrom st n cs = .closed m) (hm : m < n + k) :
    gapFrom st n (cs.take k) = .closed m := by
  fun_induction gapFrom st n cs generalizing k with
  | case1 => cases h
  | case2 n | case3 n =>
    cases h
    rw [List.take_nil, gapFrom]
  | case4 n cs ih | case5 n cs ih | case9 _ _ n cs ih | case10 _ n cs ih | case11 _ _ n cs ih =>
    have hle := le_of_gapFrom h
    obtain ⟨k, rfl⟩ : ∃ i, k = i + 2 := ⟨k - 2, by omega⟩
    rw [List.take_succ_cons, List.take_succ_cons, gapFrom]
    exact ih h (by omega)
  | case6 n c cs hline hblock hblank ih =>
    have hle := le_of_gapFrom h
    obtain ⟨k, rfl⟩ : ∃ i, k = i + 1 := ⟨k - 1, by omega⟩
    rw [List.take_succ_cons, gapFrom, if_pos hblank]
    · exact ih h (by omega)
    · exact fun u hc => take_ne_cons (fun u => hline u hc) u
    · exact fun u hc => take_ne_cons (fun u => hblock u hc) u
  | case7 n c cs hline hblock hblank =>
    cases h
    obtain ⟨k, rfl⟩ : ∃ i, k = i + 1 := ⟨k - 1, by omega⟩
    rw [List.take_succ_cons, gapFrom, if_neg hblank]
    · exact fun u hc => take_ne_cons (fun u => hline u hc) u
    · exact fun u hc => take_ne_cons (fun u => hblock u hc) u
  | case8 n c cs ih =>
    have hle := le_of_gapFrom h
    obtain ⟨k, rfl⟩ : ∃ i, k = i + 1 := ⟨k - 1, by omega⟩
    rw [List.take_succ_cons, gapFrom]
    exact ih h (by omega)
  | case12 _ _ n c cs hopen hzero hsucc ih =>
    have hle := le_of_gapFrom h
    obtain ⟨k, rfl⟩ : ∃ i, k = i + 1 := ⟨k - 1, by omega⟩
    rw [List.take_succ_cons, gapFrom]
    · exact ih h (by omega)
    · exact fun u hc => take_ne_cons (fun u => hopen u hc) u
    · exact fun u hd hc => take_ne_cons (fun u => hzero u hd hc) u
    · exact fun i u hd hc => take_ne_cons (fun u => hsucc i u hd hc) u

/-- No gap is left behind one. -/
theorem gap_drop_of_gapFrom {st : GapState} (h : gapFrom st n cs = .closed m) :
    ∃ i ≤ cs.length, m = n + i ∧ gap (cs.drop i) = .closed 0 := by
  fun_induction gapFrom st n cs with
  | case1 => cases h
  | case2 n | case3 n =>
    cases h
    exact ⟨0, Nat.le_refl 0, rfl, rfl⟩
  | case4 n cs ih | case5 n cs ih | case9 _ _ n cs ih | case10 _ n cs ih | case11 _ _ n cs ih =>
    obtain ⟨i, hi, rfl, hgap⟩ := ih h
    exact ⟨i + 2, Nat.add_le_add_right hi 2, by omega, hgap⟩
  | case6 n c cs _ _ _ ih | case8 n c cs ih | case12 _ _ n c cs _ _ _ ih =>
    obtain ⟨i, hi, rfl, hgap⟩ := ih h
    exact ⟨i + 1, Nat.succ_le_succ hi, by omega, hgap⟩
  | case7 n c cs hline hblock hblank =>
    cases h
    refine ⟨0, Nat.zero_le _, rfl, ?_⟩
    rw [List.drop_zero, gap, gapFrom, if_neg hblank]
    · exact hline
    · exact hblock

theorem gap_drop (h : gap cs = .closed n) : n ≤ cs.length ∧ gap (cs.drop n) = .closed 0 := by
  obtain ⟨i, hi, hn, hgap⟩ := gap_drop_of_gapFrom h
  rw [Nat.zero_add] at hn
  exact hn ▸ ⟨hi, hgap⟩

/-! ### The first lexeme -/

/-- **The first token is read again if the text is cut off behind it.** -/
theorem firstLexeme_take (h : (firstLexeme d offset cs).1.kind ≠ .eof)
    (hcut : CleanCut cs (firstLexeme d offset cs).2 m) :
    firstLexeme d offset (cs.take m) = firstLexeme d offset cs := by
  rcases firstLexeme_cases d offset cs with ⟨notes, heq⟩ | ⟨n, c, rest, hgap, hdrop, hkind, heq⟩
  · rw [heq] at h
    exact absurd rfl h
  obtain ⟨i, hi, hn, hcomment⟩ := gapStops_gapFrom hgap
  rw [Nat.zero_add] at hn
  subst hn
  rw [hdrop] at hcomment
  have hpos := (fits_readToken d (offset + byteLength (cs.take n)) hcomment).pos
  rw [heq] at hcut ⊢
  generalize hr : readToken d (offset + byteLength (cs.take n)) c rest = r at hpos hkind hcut ⊢
  have hle : n + r.taken ≤ m := hcut.le
  obtain ⟨k, rfl⟩ : ∃ k, m = n + (k + 1) := ⟨m - n - 1, by omega⟩
  have hclean : CleanCut (c :: rest) r.taken (k + 1) := by
    refine ⟨by omega, fun hone => ?_, fun hlt => ?_⟩
    · have hdots := hcut.dots (show n + (k + 1) = n + r.taken + 1 by omega)
      rwa [← List.drop_drop, hdrop] at hdots
    · have hlast := hcut.comment (show n + r.taken < n + (k + 1) by omega)
      rwa [← Nat.add_assoc, Nat.add_sub_cancel, ← List.drop_drop, hdrop] at hlast
  -- the gap in front of the token is the same, and so is what the rule reads behind it
  have hread : readToken d (offset + byteLength (cs.take n)) c (rest.take k) = r := by
    rw [readToken_take hcomment (by rwa [hr]) (by rwa [hr]), hr]
  have hgap' : gap (cs.take (n + (k + 1))) = .closed n := gapFrom_take hgap (by omega)
  have htext : (c :: rest.take k).take r.taken = (c :: rest).take r.taken := by
    rw [← List.take_succ_cons, List.take_take, Nat.min_eq_left hclean.le]
  unfold firstLexeme
  rw [hgap']
  dsimp only
  rw [List.drop_take, Nat.add_sub_cancel_left, hdrop, List.take_succ_cons, List.take_take,
    Nat.min_eq_left (Nat.le_add_right n (k + 1))]
  dsimp only
  rw [hread, if_neg hkind, htext, Reading.lexeme, hdrop]

/-- No comment starts at the last character of the first token. -/
theorem startsComment_firstLexeme (h : (firstLexeme d offset cs).1.kind ≠ .eof) :
    startsComment (cs.drop ((firstLexeme d offset cs).2 - 1)) = false := by
  rcases firstLexeme_cases d offset cs with ⟨notes, heq⟩ | ⟨n, c, rest, hgap, hdrop, hkind, heq⟩
  · rw [heq] at h
    exact absurd rfl h
  obtain ⟨i, hi, hn, hcomment⟩ := gapStops_gapFrom hgap
  rw [Nat.zero_add] at hn
  subst hn
  rw [hdrop] at hcomment
  have hpos := (fits_readToken d (offset + byteLength (cs.take n)) hcomment).pos
  have hlast := startsComment_readToken hcomment hkind
  rw [heq]
  dsimp only
  rwa [Nat.add_sub_assoc hpos, ← List.drop_drop, hdrop]

theorem firstLexeme_stop (h : (firstLexeme d offset cs).1.kind ≠ .eof) :
    (firstLexeme d offset cs).1.token.span.stop
      = offset + byteLength (cs.take (firstLexeme d offset cs).2) := by
  rcases firstLexeme_cases d offset cs with ⟨notes, heq⟩ | ⟨n, c, rest, -, -, -, heq⟩
  · rw [heq] at h
    exact absurd rfl h
  · rw [heq]
    simp only [Reading.lexeme, List.take_add, byteLength_append, Nat.add_assoc]

/-- Two dots are one token. -/
theorem firstLexeme_dots (d : Dialect) (offset : Nat) (cs : List Char) :
    (firstLexeme d offset ('.' :: '.' :: cs)).2 = 2 := by
  have hgap : gap ('.' :: '.' :: cs) = .closed 0 := gap_cons (by decide) rfl
  unfold firstLexeme
  rw [hgap]
  rfl

/-! ### All lexemes -/

/-- In a text that starts at byte `offset`, a cut behind `m` characters separates the lexemes `run`
from `rest`.  What is before it has the lexemes `run`, also in front of a blank. -/
structure CutBehind (d : Dialect) (offset : Nat) (cs : List Char) (run rest : List Lexeme)
    (m : Nat) : Prop where
  le : m ≤ cs.length
  dots : m = 1 → ¬ ['.', '.'] <+: cs
  comment : 0 < m → startsComment (cs.drop (m - 1)) = false
  before : rawLexemesFrom d ((cs.take m).length + 1) offset (cs.take m)
    = run ++ [endLexeme offset (cs.take m) []]
  joins : ∀ {x} (t), isBlank x = true →
    rawLexemesFrom d ((cs.take m ++ x :: t).length + 1) offset (cs.take m ++ x :: t)
      = run ++ rawLexemesFrom d ((x :: t).length + 1) (offset + byteLength (cs.take m)) (x :: t)
  behind : rawLexemesFrom d ((cs.drop m).length + 1) (offset + byteLength (cs.take m)) (cs.drop m)
    = rest

theorem cutBehind_zero {rest : List Lexeme} (h : rawLexemesFrom d (cs.length + 1) offset cs = rest) :
    CutBehind d offset cs [] rest 0 :=
  ⟨Nat.zero_le _, nofun, nofun, rfl, fun _ _ => rfl, h⟩

/-- A cut further on is clean behind the first token. -/
theorem CutBehind.cleanCut {start : Nat} {run rest : List Lexeme}
    (h : CutBehind d start (cs.drop n) run rest m) : CleanCut cs n (n + m) := by
  refine ⟨Nat.le_add_right n m, fun hone => h.dots (Nat.add_left_cancel hone), fun hlt => ?_⟩
  have hpos : 0 < m := Nat.pos_of_lt_add_right hlt
  have hcomment := h.comment hpos
  rwa [List.drop_drop, ← Nat.add_sub_assoc hpos] at hcomment

theorem breaks_of_isBlank {x : Char} (hx : isBlank x = true) : Breaks x ∧ x ≠ ':' := by
  simp only [isBlank, Bool.or_eq_true, beq_iff_eq] at hx
  rcases hx with ((((rfl | rfl) | rfl) | rfl) | rfl) | rfl <;> decide

/-- The first token in front of a cut. -/
theorem CutBehind.cons {run rest : List Lexeme} (hkind : (firstLexeme d offset cs).1.kind ≠ .eof)
    (h : CutBehind d (offset + byteLength (cs.take (firstLexeme d offset cs).2))
      (cs.drop (firstLexeme d offset cs).2) run rest m) :
    CutBehind d offset cs ((firstLexeme d offset cs).1 :: run) rest
      ((firstLexeme d offset cs).2 + m) := by
  have hagain := firstLexeme_take hkind h.cleanCut
  have hlast := startsComment_firstLexeme hkind
  obtain ⟨hpos, hle⟩ := firstLexeme_taken d hkind
  generalize hfirst : firstLexeme d offset cs = first at hkind h hagain hlast hpos hle
  have hbytes : byteLength (cs.take (first.2 + m))
      = byteLength (cs.take first.2) + byteLength ((cs.drop first.2).take m) := by
    rw [List.take_add, byteLength_append]
  have hdrop : (cs.take (first.2 + m)).drop first.2 = (cs.drop first.2).take m := by
    rw [List.drop_take, Nat.add_sub_cancel_left]
  have htake : (cs.take (first.2 + m)).take first.2 = cs.take first.2 := by
    rw [List.take_take, Nat.min_eq_left (Nat.le_add_right _ m)]
  have hm := h.le
  rw [List.length_drop] at hm
  have hlen : first.2 ≤ (cs.take (first.2 + m)).length := by
    rw [List.length_take]
    omega
  refine ⟨by omega, fun hone => ?_, fun _ => ?_, ?_, fun {x} t hx => ?_, ?_⟩
  · rintro ⟨t, rfl⟩
    -- two dots are one token
    have htwo := firstLexeme_dots d offset t
    simp only [List.cons_append, List.nil_append] at hfirst
    rw [hfirst] at htwo
    omega
  · rcases Nat.eq_zero_or_pos m with rfl | hm
    · exact hlast
    · have hcomment := h.comment hm
      rwa [List.drop_drop, ← Nat.add_sub_assoc hm] at hcomment
  · rw [rawLexemesFrom_unfold, hagain, if_neg hkind, hdrop, htake, h.before, List.cons_append]
    simp only [endLexeme, hbytes, Nat.add_assoc]
  · obtain ⟨hbreak, hcolon⟩ := breaks_of_isBlank hx
    -- the token is read in the part before the cut, which the blank does not change
    have hjoined : firstLexeme d offset (cs.take (first.2 + m) ++ x :: t) = first :=
      (firstLexeme_append d hbreak hcolon (by rwa [hagain]) t).trans hagain
    rw [rawLexemesFrom_unfold, hjoined, if_neg hkind, List.drop_append_of_le_length hlen, hdrop,
      List.take_append_of_le_length hlen, htake, h.joins t hx, hbytes, Nat.add_assoc,
      List.cons_append]
  · rw [hbytes, ← Nat.add_assoc, ← List.drop_drop]
    exact h.behind

/-- Every text with some lexemes first has an end of the last of them, from which on cuts in front
of the others are cuts of the whole. -/
theorem exists_end {run rest : List Lexeme}
    (h : rawLexemesFrom d (cs.length + 1) offset cs = run ++ rest)
    (hrun : ∀ l ∈ run, l.kind ≠ .eof) :
    ∃ i, offset + byteLength (cs.take i) = stopOf offset run ∧
      rawLexemesFrom d ((cs.drop i).length + 1) (offset + byteLength (cs.take i)) (cs.drop i) = rest ∧
      ∀ {m}, CutBehind d (offset + byteLength (cs.take i)) (cs.drop i) [] rest m →
        CutBehind d offset cs run rest (i + m) := by
  induction run generalizing offset cs with
  | nil => exact ⟨0, rfl, h, fun {m} hm => by rwa [Nat.zero_add]⟩
  | cons l run ih =>
    rw [rawLexemesFrom_unfold] at h
    have hkind : (firstLexeme d offset cs).1.kind ≠ .eof := by
      intro heof
      rw [if_pos heof, List.cons_append] at h
      exact hrun l List.mem_cons_self ((List.cons.inj h).1 ▸ heof)
    rw [if_neg hkind, List.cons_append] at h
    obtain ⟨rfl, hrest⟩ := List.cons.inj h
    obtain ⟨i, hstop, hbehind, hcut⟩ := ih hrest fun l' hl' => hrun l' (List.mem_cons_of_mem _ hl')
    have hplace : offset + byteLength (cs.take ((firstLexeme d offset cs).2 + i))
        = offset + byteLength (cs.take (firstLexeme d offset cs).2)
          + byteLength ((cs.drop (firstLexeme d offset cs).2).take i) := by
      rw [List.take_add, byteLength_append, Nat.add_assoc]
    refine ⟨(firstLexeme d offset cs).2 + i, ?_, ?_, fun {m} hm => ?_⟩
    · rw [hplace, hstop, stopOf, firstLexeme_stop hkind]
    · rwa [hplace, ← List.drop_drop]
    · rw [Nat.add_assoc]
      rw [hplace, ← List.drop_drop] at hm
      exact (hcut hm).cons hkind

/-- **The beginning of a text up to the end of a token has the lexemes up to it.** -/
theorem exists_cutBehind {run rest : List Lexeme}
    (h : rawLexemesFrom d (cs.length + 1) offset cs = run ++ rest)
    (hrun : ∀ l ∈ run, l.kind ≠ .eof) :
    ∃ m, CutBehind d offset cs run rest m ∧ offset + byteLength (cs.take m) = stopOf offset run := by
  obtain ⟨i, hstop, hbehind, hcut⟩ := exists_end h hrun
  exact ⟨i, hcut (cutBehind_zero hbehind), hstop⟩

/-- Without the gap in front of its first token, a text has the same lexemes. -/
theorem rawLexemesFrom_behind_gap {l : Lexeme} {ls : List Lexeme} (hl : l.kind ≠ .eof)
    (h : rawLexemesFrom d (cs.length + 1) offset cs = l :: ls) :
    ∃ p t, cs = p ++ t ∧ gap cs = .closed p.length ∧
      l.token.span.start = offset + byteLength p ∧
      rawLexemesFrom d (t.length + 1) (offset + byteLength p) t = l :: ls := by
  have hfirst : (firstLexeme d offset cs).1 = l := by
    rw [rawLexemesFrom_unfold] at h
    split at h
    · exact (List.cons.inj h).1
    · exact (List.cons.inj h).1
  rcases firstLexeme_cases d offset cs with ⟨notes, heq⟩ | ⟨n, c, rest, hgap, -, -, heq⟩
  · rw [← hfirst, heq] at hl
    exact absurd rfl hl
  · obtain ⟨hn, hnone⟩ := gap_drop hgap
    have hlen : (cs.take n).length = n := List.length_take_of_le hn
    have hskip : gap (cs.take n ++ cs.drop n) = (gap (cs.drop n)).shift (cs.take n).length := by
      rw [List.take_append_drop, hgap, hnone, hlen, Gap.shift, Nat.zero_add]
    refine ⟨cs.take n, cs.drop n, (List.take_append_drop n cs).symm, by rw [hgap, hlen], ?_, ?_⟩
    · rw [← hfirst, heq]
      rfl
    · rw [← rawLexemesFrom_skip d hskip, List.take_append_drop, h]

/-- **The lexemes of a slice.**  If some lexemes of a text stand between others, the text from the
start of the first to the end of the last has these lexemes and no others. -/
theorem rawLexemes_slice {source : List Char} {before run behind : List Lexeme}
    (h : rawLexemes d source = before ++ (run ++ behind)) (hbefore : ∀ l ∈ before, l.kind ≠ .eof)
    (hrun : ∀ l ∈ run, l.kind ≠ .eof) (hne : run ≠ []) :
    ∃ left text right inner, source = left ++ (text ++ right) ∧
      run = inner.map (Lexeme.shift (byteLength left)) ∧
      rawLexemes d text = inner ++ [endLexeme 0 text []] ∧
      (∀ l ∈ inner.head?, l.token.span.start = 0) ∧ stopOf 0 inner = byteLength text := by
  obtain ⟨i, hi, -⟩ := exists_cutBehind h hbefore
  obtain ⟨l, run, rfl⟩ := List.exists_cons_of_ne_nil hne
  have hrest : rawLexemesFrom d ((source.drop i).length + 1) (0 + byteLength (source.take i))
      (source.drop i) = l :: (run ++ behind) := hi.behind
  obtain ⟨p, t, ht, -, hstart, hlexemes⟩ :=
    rawLexemesFrom_behind_gap (hrun l List.mem_cons_self) hrest
  have hplace : 0 + byteLength (source.take i) + byteLength p
      = 0 + byteLength (source.take i ++ p) := by
    rw [byteLength_append, Nat.add_assoc]
  rw [hplace, rawLexemesFrom_shift, ← List.cons_append] at hlexemes
  obtain ⟨inner, outer, hraw, hinner, -⟩ := List.map_eq_append_iff.mp hlexemes
  have hkinds : ∀ m ∈ inner, m.kind ≠ .eof := fun m hm =>
    hrun (m.shift _) (by rw [← hinner]; exact List.mem_map_of_mem hm)
  obtain ⟨j, hj, hstop⟩ := exists_cutBehind hraw hkinds
  refine ⟨source.take i ++ p, t.take j, t.drop j, inner, ?_, hinner.symm, hj.before, ?_, ?_⟩
  · rw [List.take_append_drop, List.append_assoc, ← ht, List.take_append_drop]
  · intro m hm
    obtain ⟨ms, rfl⟩ := List.head?_eq_some_iff.mp hm
    rw [hplace, ← (List.cons.inj hinner).1] at hstart
    exact Nat.add_right_cancel hstart
  · rw [← hstop, Nat.zero_add]

end SqlSyntax
