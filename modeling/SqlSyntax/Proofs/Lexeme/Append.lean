import SqlSyntax.Proofs.Lexeme.Span
import SqlSyntax.Proofs.Lexeme.Taken

/-!
# Lexemes of a text in two parts

A line break between two parts of a text keeps their lexemes apart, unless a
literal or comment of the first part has no end: the lexemes are those of the
first part and behind them those of the second, which only stand further on.

## Main definitions

* `GapStops` — where a gap ends.
* `Token.shift`, `Lexeme.shift` — a token or lexeme further on in a text.
* `Closed` — no literal or comment of a text is left without its end.

## Main results

* `rawLexemesFrom_eq` — the number of lexemes that are looked for makes no
  difference.
* `rawLexemesFrom_shift` — a text further on has the same lexemes.
* `rawLexemes_skip` — a part of a gap in front of a text moves its lexemes on.
* `rawLexemes_append` — **the lexemes of a text in two parts.**
-/

namespace SqlSyntax

variable {x : Char} {cs t : List Char}

/-! ### Gaps -/

/-- A gap of which `n` characters came before ends after `m`, in front of something
that is no comment. -/
def GapStops (n m : Nat) (cs : List Char) : Prop :=
  ∃ k ≤ cs.length, m = n + k ∧ startsComment (cs.drop k) = false

theorem GapStops.here {n : Nat} (h : startsComment cs = false) : GapStops n n cs :=
  ⟨0, Nat.zero_le _, rfl, h⟩

theorem GapStops.cons {n m : Nat} (c : Char) (h : GapStops (n + 1) m cs) :
    GapStops n m (c :: cs) := by
  obtain ⟨k, hk, hm, hs⟩ := h
  exact ⟨k + 1, Nat.succ_le_succ hk, by omega, hs⟩

theorem gapStops_gapFrom {st : GapState} {n m : Nat} (h : gapFrom st n cs = .closed m) :
    GapStops n m cs := by
  fun_induction gapFrom st n cs generalizing m with
  | case1 => simp at h
  | case2 n | case3 n =>
    cases h
    exact .here rfl
  | case4 n cs ih | case5 n cs ih | case9 _ _ n cs ih | case10 _ n cs ih | case11 _ _ n cs ih =>
    exact ((ih h).cons _).cons _
  | case6 n c cs _ _ _ ih | case8 n c cs ih | case12 _ _ n c cs _ _ _ ih => exact (ih h).cons c
  | case7 n c cs hline hblock _ =>
    cases h
    refine .here ?_
    unfold startsComment
    split
    · next heq => exact (hblock _ (List.cons.inj heq).1 (List.cons.inj heq).2).elim
    · next heq => exact (hline _ (List.cons.inj heq).1 (List.cons.inj heq).2).elim
    · rfl

/-- A text that does not go on with a character does not do so before a break. -/
theorem append_break_ne_cons {y : Char} (hy : y ≠ x) (h : ∀ u, cs = y :: u → False) :
    ∀ u, cs ++ x :: t = y :: u → False := by
  intro u hu
  cases cs with
  | nil => exact hy (List.cons.inj hu).1.symm
  | cons c cs =>
    rw [List.cons_append] at hu
    exact h cs (by rw [(List.cons.inj hu).1])

/-- A gap that ends inside a text is not changed by what follows a break. -/
theorem gapFrom_append_inside (hx : Breaks x) {st : GapState} {n m : Nat}
    (h : gapFrom st n cs = .closed m) (hm : m < n + cs.length) (t : List Char) :
    gapFrom st n (cs ++ x :: t) = .closed m := by
  have hminus : '-' ≠ x := hx.ne (by decide)
  have hstar : '*' ≠ x := hx.ne (by decide)
  have hslash : '/' ≠ x := hx.ne (by decide)
  fun_induction gapFrom st n cs generalizing m with
  | case1 => simp at h
  | case2 n | case3 n =>
    cases h
    simp at hm
  | case4 n cs ih | case5 n cs ih | case9 _ _ n cs ih | case10 _ n cs ih | case11 _ _ n cs ih =>
    simp only [List.cons_append, gapFrom]
    exact ih h (by simp only [List.length_cons] at hm; omega)
  | case6 n c cs hline hblock hblank ih =>
    rw [List.cons_append, gapFrom, if_pos hblank]
    · exact ih h (by simp only [List.length_cons] at hm; omega)
    · exact fun u hc => append_break_ne_cons hminus (fun u => hline u hc) u
    · exact fun u hc => append_break_ne_cons hstar (fun u => hblock u hc) u
  | case7 n c cs hline hblock hblank =>
    rw [List.cons_append, gapFrom, if_neg hblank, ← h]
    · exact fun u hc => append_break_ne_cons hminus (fun u => hline u hc) u
    · exact fun u hc => append_break_ne_cons hstar (fun u => hblock u hc) u
  | case8 n c cs ih =>
    rw [List.cons_append, gapFrom]
    exact ih h (by simp only [List.length_cons] at hm; omega)
  | case12 _ _ n c cs hopen hzero hsucc ih =>
    rw [List.cons_append, gapFrom]
    · exact ih h (by simp only [List.length_cons] at hm; omega)
    · exact fun u hc => append_break_ne_cons hstar (fun u => hopen u hc) u
    · exact fun u hd hc => append_break_ne_cons hslash (fun u => hzero u hd hc) u
    · exact fun d u hd hc => append_break_ne_cons hslash (fun u => hsucc d u hd hc) u

/-- A gap up to the end of a text goes on behind a line break. -/
theorem gapFrom_append_end {st : GapState} {n : Nat}
    (h : gapFrom st n cs = .closed (n + cs.length)) (t : List Char) :
    gapFrom st n (cs ++ '\n' :: t) = gapFrom .between (n + cs.length + 1) t := by
  fun_induction gapFrom st n cs with
  | case1 => simp at h
  | case2 n =>
    rw [List.nil_append, gapFrom, if_pos (by decide)]
    · rfl
    · exact fun u hc => absurd hc (by decide)
    · exact fun u hc => absurd hc (by decide)
  | case3 n =>
    rw [List.nil_append, gapFrom, if_pos rfl]
    rfl
  | case4 n cs ih | case5 n cs ih | case9 _ _ n cs ih | case10 _ n cs ih | case11 _ _ n cs ih =>
    have htwo : ∀ a b : Char, n + (a :: b :: cs).length = n + 2 + cs.length := fun a b => by
      simp only [List.length_cons]
      omega
    simp only [List.cons_append, gapFrom, htwo] at h ⊢
    exact ih h
  | case6 n c cs hline hblock hblank ih =>
    have hone : n + (c :: cs).length = n + 1 + cs.length := by simp only [List.length_cons]; omega
    rw [hone] at h ⊢
    rw [List.cons_append, gapFrom, if_pos hblank]
    · exact ih h
    · exact fun u hc => append_break_ne_cons (by decide) (fun u => hline u hc) u
    · exact fun u hc => append_break_ne_cons (by decide) (fun u => hblock u hc) u
  | case7 n c cs hline hblock hblank => simp at h
  | case8 n c cs ih =>
    have hone : n + (c :: cs).length = n + 1 + cs.length := by simp only [List.length_cons]; omega
    rw [hone] at h ⊢
    rw [List.cons_append, gapFrom]
    exact ih h
  | case12 _ _ n c cs hopen hzero hsucc ih =>
    have hone : n + (c :: cs).length = n + 1 + cs.length := by simp only [List.length_cons]; omega
    rw [hone] at h ⊢
    rw [List.cons_append, gapFrom]
    · exact ih h
    · exact fun u hc => append_break_ne_cons (by decide) (fun u => hopen u hc) u
    · exact fun u hd hc => append_break_ne_cons (by decide) (fun u => hzero u hd hc) u
    · exact fun d u hd hc => append_break_ne_cons (by decide) (fun u => hsucc d u hd hc) u

/-- The same gap with `k` more characters before it. -/
def Gap.shift (k : Nat) : Gap → Gap
  | closed n => closed (n + k)
  | unclosed n => unclosed (n + k)

/-- The same state of a reader that has read `k` more characters. -/
def GapState.shift (k : Nat) : GapState → GapState
  | between => between
  | line => line
  | block depth start => block depth (start + k)

theorem gapFrom_shift (k : Nat) (st : GapState) (n : Nat) (cs : List Char) :
    gapFrom (st.shift k) (n + k) cs = (gapFrom st n cs).shift k := by
  have hadd : ∀ n i, n + k + i = n + i + k := fun n i => by omega
  fun_induction gapFrom st n cs with
  | case1 | case2 | case3 => rfl
  | case4 n cs ih | case5 n cs ih | case9 _ _ n cs ih | case10 _ n cs ih | case11 _ _ n cs ih =>
    simp only [GapState.shift, gapFrom, hadd] at ih ⊢
    exact ih
  | case6 n c cs hline hblock hblank ih =>
    rw [GapState.shift, gapFrom, if_pos hblank, hadd]
    · exact ih
    all_goals assumption
  | case7 n c cs hline hblock hblank =>
    rw [GapState.shift, gapFrom, if_neg hblank]
    · rfl
    all_goals assumption
  | case8 n c cs ih =>
    rw [GapState.shift, gapFrom, hadd, ← ih]
    split <;> rfl
  | case12 _ _ n c cs hopen hzero hsucc ih =>
    rw [GapState.shift, gapFrom, hadd]
    · exact ih
    all_goals assumption

/-- Where a reader that has read `p` is still between comments, the gap is the one behind `p`. -/
theorem gap_append {p : List Char} (h : gap (p ++ t) = gapFrom .between p.length t) :
    gap (p ++ t) = (gap t).shift p.length := by
  have hshift := gapFrom_shift p.length .between 0 t
  rw [GapState.shift, Nat.zero_add] at hshift
  exact h.trans hshift

/-- A gap up to the end of a text is followed by the one behind the line break. -/
theorem gap_append_end (h : gap cs = .closed cs.length) (t : List Char) :
    gap (cs ++ ['\n'] ++ t) = (gap t).shift (cs ++ ['\n']).length := by
  refine gap_append ?_
  have hwhole : gapFrom .between 0 cs = .closed (0 + cs.length) := by
    rw [Nat.zero_add]
    exact h
  have hend := gapFrom_append_end hwhole t
  rw [Nat.zero_add] at hend
  rw [gap, List.append_assoc, List.singleton_append, hend, List.length_append,
    List.length_singleton]

/-! ### Readings further on -/

section Shift

variable (k : Nat)

/-- A note that lies `k` bytes further on. -/
def Note.shift (n : Note) : Note :=
  ⟨n.problem, n.offset + k⟩

/-- What is read `k` bytes further on. -/
def Reading.shift (r : Reading) : Reading :=
  ⟨r.kind, r.taken, r.notes.map (Note.shift k)⟩

/-- A token that stands `k` bytes further on. -/
def Token.shift (t : Token) : Token :=
  ⟨t.kind, ⟨t.span.start + k, t.span.stop + k⟩⟩

/-- A lexeme that stands `k` bytes further on. -/
def Lexeme.shift (l : Lexeme) : Lexeme :=
  ⟨⟨l.kind, ⟨l.token.span.start + k, l.token.span.stop + k⟩⟩, l.notes.map (Note.shift k)⟩

variable (d : Dialect) (start : Nat)

theorem unfinished_shift (problem : LexicalProblem) (cs : List Char) (notes : List Note) :
    unfinished (start + k) problem cs (notes.map (Note.shift k))
      = (unfinished start problem cs notes).shift k := by
  simp [unfinished, Reading.shift, Note.shift]

theorem limitName_shift (name : List Char) :
    limitName d (start + k) name
      = ((limitName d start name).1, (limitName d start name).2.map (Note.shift k)) := by
  unfold limitName
  dsimp only
  split <;> rfl

theorem faultNotes_shift (fs : List Escape.Fault) :
    faultNotes (start + k) fs = (faultNotes start fs).map (Note.shift k) := by
  simp [faultNotes, Note.shift]

theorem digitNotes_shift (radix : Nat) (problem : Char → LexicalProblem) (body : List Char) :
    digitNotes (start + k) radix problem body
      = (digitNotes start radix problem body).map (Note.shift k) := by
  unfold digitNotes
  cases body.find? fun c => !isDigitOf radix c <;> rfl

theorem readWord_shift (cs : List Char) :
    readWord d (start + k) cs = (readWord d start cs).shift k := by
  unfold readWord
  dsimp only
  split
  · rfl
  · rw [limitName_shift]
    rfl

theorem readQuotedName_shift (cs : List Char) :
    readQuotedName d (start + k) cs = (readQuotedName d start cs).shift k := by
  unfold readQuotedName
  split
  · exact unfinished_shift k start _ cs []
  · next body n _ =>
    rw [limitName_shift]
    cases body <;> simp [Reading.shift, Note.shift]

theorem readPlainString_shift (intro : Nat) (cs : List Char) :
    readPlainString (start + k) intro cs = (readPlainString start intro cs).shift k := by
  unfold readPlainString
  split
  · exact unfinished_shift k start _ cs []
  · rfl

theorem readEscapeString_shift (warn : Bool) (intro : Nat) (cs : List Char) :
    readEscapeString warn (start + k) intro cs = (readEscapeString warn start intro cs).shift k := by
  unfold readEscapeString
  dsimp only
  have hwarning : ∀ (p : Prop) [Decidable p] (i : Nat),
      (if p then [Note.mk .plainEscape (start + k + i)] else [])
        = (if p then [Note.mk .plainEscape (start + i)] else []).map (Note.shift k) := by
    intro p _ i
    split
    · simp [Note.shift, Nat.add_right_comm]
    · rfl
  rw [faultNotes_shift, hwarning, ← List.map_append]
  split
  · rfl
  · exact unfinished_shift k start _ cs _

theorem readString_shift (cs : List Char) :
    readString d (start + k) cs = (readString d start cs).shift k := by
  unfold readString
  split
  · exact readPlainString_shift k start 1 cs
  · exact readEscapeString_shift k start _ 1 cs

theorem readBinary_shift (cs : List Char) :
    readBinary (start + k) cs = (readBinary start cs).shift k := by
  unfold readBinary
  split
  · exact unfinished_shift k start _ cs []
  · rw [digitNotes_shift]
    rfl

theorem readHex_shift (cs : List Char) :
    readHex (start + k) cs = (readHex start cs).shift k := by
  unfold readHex
  split
  · exact unfinished_shift k start _ cs []
  · rw [digitNotes_shift]
    rfl

theorem readEscapedName_shift (cs : List Char) :
    readEscapedName (start + k) cs = (readEscapedName start cs).shift k := by
  unfold readEscapedName
  split
  · exact unfinished_shift k start _ cs []
  · rfl

theorem readEscapedString_shift (cs : List Char) :
    readEscapedString d (start + k) cs = (readEscapedString d start cs).shift k := by
  unfold readEscapedString
  split
  · exact unfinished_shift k start _ cs []
  · split <;> rfl

theorem readParam_shift (cs : List Char) :
    readParam (start + k) cs = (readParam start cs).shift k := by
  unfold readParam
  dsimp only
  split <;> split <;> rfl

theorem readDollar_shift (cs : List Char) :
    readDollar (start + k) cs = (readDollar start cs).shift k := by
  unfold readDollar
  split
  · exact readParam_shift k start cs
  · split
    · rfl
    · dsimp only
      split
      · exact unfinished_shift k start _ cs []
      · rfl

theorem readNumber_shift (cs : List Char) :
    readNumber (start + k) cs = (readNumber start cs).shift k := by
  unfold readNumber
  dsimp only
  rw [Reading.shift, apply_ite (List.map (Note.shift k))]
  rfl

/-- What the rules read does not depend on the place. -/
theorem readToken_shift (c : Char) (cs : List Char) :
    readToken d (start + k) c cs = (readToken d start c cs).shift k := by
  unfold readToken
  simp only [apply_ite (Reading.shift k), readString_shift, readQuotedName_shift,
    readDollar_shift, readEscapeString_shift, readPlainString_shift, readBinary_shift,
    readHex_shift, readEscapedName_shift, readEscapedString_shift, readWord_shift,
    readNumber_shift]
  rfl

theorem endLexeme_shift (offset : Nat) (cs : List Char) (notes : List Note) :
    endLexeme (offset + k) cs (notes.map (Note.shift k)) = (endLexeme offset cs notes).shift k := by
  simp [endLexeme, Lexeme.shift, Nat.add_right_comm]

theorem firstLexeme_shift (offset : Nat) (cs : List Char) :
    firstLexeme d (offset + k) cs
      = ((firstLexeme d offset cs).1.shift k, (firstLexeme d offset cs).2) := by
  have hadd : ∀ i, offset + k + i = offset + i + k := fun i => Nat.add_right_comm _ _ _
  unfold firstLexeme
  cases gap cs with
  | unclosed n =>
    dsimp only
    rw [← endLexeme_shift, List.map_singleton, Note.shift, hadd]
  | closed n =>
    dsimp only
    cases cs.drop n with
    | nil => rw [← endLexeme_shift, List.map_nil]
    | cons c rest =>
      dsimp only
      rw [hadd, readToken_shift]
      generalize readToken d (offset + byteLength (cs.take n)) c rest = r
      by_cases h : r.kind = .eof
      · rw [if_pos (show (r.shift k).kind = .eof from h), if_pos h, ← endLexeme_shift]
        rfl
      · rw [if_neg (show ¬ (r.shift k).kind = .eof from h), if_neg h, Nat.add_right_comm _ k]
        rfl

/-- **A text further on has the same lexemes.** -/
theorem rawLexemesFrom_shift (count offset : Nat) (cs : List Char) :
    rawLexemesFrom d count (offset + k) cs
      = (rawLexemesFrom d count offset cs).map (Lexeme.shift k) := by
  induction count generalizing offset cs with
  | zero =>
    rw [rawLexemesFrom, rawLexemesFrom, List.map_singleton, ← endLexeme_shift, List.map_nil]
  | succ count ih =>
    simp only [rawLexemesFrom, firstLexeme_shift]
    have hkind : ((firstLexeme d offset cs).1.shift k).kind = (firstLexeme d offset cs).1.kind := rfl
    rw [hkind]
    split
    · rfl
    · rw [List.map_cons, ← ih, Nat.add_right_comm]

end Shift

/-! ### Texts in two parts -/

section Append

variable (d : Dialect)

/-- A token that is not the end of the text takes some characters of it. -/
theorem firstLexeme_taken {offset : Nat} (h : (firstLexeme d offset cs).1.kind ≠ .eof) :
    0 < (firstLexeme d offset cs).2 ∧ (firstLexeme d offset cs).2 ≤ cs.length := by
  rcases firstLexeme_cases d offset cs with ⟨notes, heq⟩ | ⟨n, c, rest, hgap, hdrop, -, heq⟩
  · rw [heq] at h
    exact absurd rfl h
  · obtain ⟨k, hk, hn, hcomment⟩ := gapStops_gapFrom hgap
    rw [Nat.zero_add] at hn
    subst hn
    rw [hdrop] at hcomment
    have hfits := fits_readToken d (offset + byteLength (cs.take n)) hcomment
    have hpos := hfits.pos
    have hle := hfits.le
    have hlen : (c :: rest).length = cs.length - n := by rw [← hdrop, List.length_drop]
    rw [heq]
    dsimp only
    omega

/-- **The number of lexemes that are looked for makes no difference**, if it is
large enough. -/
theorem rawLexemesFrom_eq {count : Nat} (offset : Nat) (cs : List Char) (h : cs.length < count) :
    rawLexemesFrom d count offset cs = rawLexemesFrom d (cs.length + 1) offset cs := by
  induction hlen : cs.length using Nat.strongRecOn generalizing cs count offset with
  | ind len ih =>
    cases count with
    | zero => omega
    | succ count =>
      subst hlen
      simp only [rawLexemesFrom]
      split
      · rfl
      · next hkind =>
        obtain ⟨hpos, hle⟩ := firstLexeme_taken d hkind
        have hrest : (cs.drop (firstLexeme d offset cs).2).length
            = cs.length - (firstLexeme d offset cs).2 := List.length_drop
        have hstep : ∀ (n offset' : Nat), cs.length ≤ n →
            rawLexemesFrom d n offset' (cs.drop (firstLexeme d offset cs).2)
              = rawLexemesFrom d (cs.length - (firstLexeme d offset cs).2 + 1) offset'
                  (cs.drop (firstLexeme d offset cs).2) :=
          fun n offset' hn => ih _ (by omega) offset' _ (by omega) hrest
        rw [hstep count _ (by omega), hstep cs.length _ (Nat.le_refl _)]

/-- No literal or comment of a text is left without its end. -/
def Closed (ls : List Lexeme) : Prop :=
  ∀ l ∈ ls, ∀ n ∈ l.notes, n.problem.isUnclosed = false

/-- The end of a text in which nothing is unclosed comes behind a gap. -/
theorem firstLexeme_eof {offset : Nat} (h : (firstLexeme d offset cs).1.kind = .eof)
    (hclosed : ∀ n ∈ (firstLexeme d offset cs).1.notes, n.problem.isUnclosed = false) :
    gap cs = .closed cs.length ∧ firstLexeme d offset cs = (endLexeme offset cs [], cs.length) := by
  unfold firstLexeme at h hclosed ⊢
  cases hgap : gap cs with
  | unclosed n =>
    rw [hgap] at hclosed
    exact absurd (hclosed _ List.mem_cons_self) (by simp [LexicalProblem.isUnclosed])
  | closed n =>
    obtain ⟨k, hk, hn, hcomment⟩ := gapStops_gapFrom hgap
    rw [Nat.zero_add] at hn
    subst hn
    rw [hgap] at h hclosed
    dsimp only at h hclosed ⊢
    cases hdrop : cs.drop n with
    | nil =>
      have hlen := List.drop_eq_nil_iff.mp hdrop
      rw [Nat.le_antisymm hk hlen]
      exact ⟨rfl, rfl⟩
    | cons c rest =>
      rw [hdrop] at h hclosed hcomment
      dsimp only at h hclosed
      have hfits := fits_readToken d (offset + byteLength (cs.take n)) hcomment
      split at h
      · next heof =>
        rw [if_pos heof] at hclosed
        obtain ⟨note, hmem, hun⟩ := hfits.unclosed heof
        rw [hclosed note hmem] at hun
        exact Bool.noConfusion hun
      · next heof => exact absurd h heof

/-- A token is not changed by what follows a break. -/
theorem firstLexeme_append {offset : Nat} (hx : Breaks x) (hcolon : x ≠ ':')
    (h : (firstLexeme d offset cs).1.kind ≠ .eof) (t : List Char) :
    firstLexeme d offset (cs ++ x :: t) = firstLexeme d offset cs := by
  rcases firstLexeme_cases d offset cs with ⟨notes, heq⟩ | ⟨n, c, rest, hgap, hdrop, hkind, heq⟩
  · rw [heq] at h
    exact absurd rfl h
  · obtain ⟨k, hk, hn, hcomment⟩ := gapStops_gapFrom hgap
    rw [Nat.zero_add] at hn
    subst hn
    have hlt : n < cs.length := by
      rw [← Nat.not_le, ← List.drop_eq_nil_iff, hdrop]
      simp
    have hgap' : gap (cs ++ x :: t) = .closed n :=
      gapFrom_append_inside hx hgap (by omega) t
    rw [hdrop] at hcomment
    have hle := (fits_readToken d (offset + byteLength (cs.take n)) hcomment).le
    have hread := readToken_append (t := t) hx d (c := c) (fun heq => absurd heq hcolon) hkind
    rw [heq]
    unfold firstLexeme
    rw [hgap']
    dsimp only
    rw [drop_append_break hk, hdrop, List.cons_append, List.take_append_of_le_length hk]
    dsimp only
    rw [hread, if_neg hkind, ← List.cons_append, List.take_append_of_le_length hle,
      Reading.lexeme, hdrop]

/-- The first token behind a part of its gap. -/
theorem firstLexeme_skip {p : List Char} (hgap : gap (p ++ t) = (gap t).shift p.length)
    (offset : Nat) :
    firstLexeme d offset (p ++ t) = ((firstLexeme d (offset + byteLength p) t).1,
      (firstLexeme d (offset + byteLength p) t).2 + p.length) := by
  have htake : ∀ n, byteLength ((p ++ t).take (n + p.length))
      = byteLength p + byteLength (t.take n) := by
    intro n
    rw [Nat.add_comm, List.take_length_add_append, byteLength_append]
  have hdrop : ∀ n, (p ++ t).drop (n + p.length) = t.drop n := by
    intro n
    rw [Nat.add_comm, List.drop_length_add_append]
  have hend : ∀ notes, endLexeme offset (p ++ t) notes
      = endLexeme (offset + byteLength p) t notes := by
    intro notes
    simp only [endLexeme, byteLength_append, Nat.add_assoc]
  have hlen : (p ++ t).length = t.length + p.length := by
    rw [List.length_append, Nat.add_comm]
  unfold firstLexeme
  rw [hgap]
  cases gap t with
  | unclosed n => simp only [Gap.shift, htake, hend, hlen, Nat.add_assoc]
  | closed n =>
    simp only [Gap.shift]
    rw [hdrop, htake]
    cases t.drop n with
    | nil => simp only [hend, hlen]
    | cons c rest =>
      dsimp only
      rw [← Nat.add_assoc offset]
      split
      · simp only [hend, hlen]
      · rw [Nat.add_right_comm n p.length]

/-- The lexemes of a text are the first and those behind it, if there are any. -/
theorem rawLexemesFrom_unfold (offset : Nat) (cs : List Char) :
    let first := firstLexeme d offset cs
    rawLexemesFrom d (cs.length + 1) offset cs
      = if first.1.kind = .eof then [first.1]
        else first.1 :: rawLexemesFrom d ((cs.drop first.2).length + 1)
          (offset + byteLength (cs.take first.2)) (cs.drop first.2) := by
  dsimp only
  rw [rawLexemesFrom]
  dsimp only
  split
  · rfl
  · next h =>
    obtain ⟨hpos, hle⟩ := firstLexeme_taken d h
    rw [rawLexemesFrom_eq d _ _ (by rw [List.length_drop]; omega)]

/-- The lexemes behind a part of the gap before them. -/
theorem rawLexemesFrom_skip {p : List Char} (hgap : gap (p ++ t) = (gap t).shift p.length)
    (offset : Nat) :
    rawLexemesFrom d ((p ++ t).length + 1) offset (p ++ t)
      = rawLexemesFrom d (t.length + 1) (offset + byteLength p) t := by
  -- only the first lexeme has to be compared, since both sides go on behind it
  have hwhole := rawLexemesFrom_unfold d offset (p ++ t)
  have hrest := rawLexemesFrom_unfold d (offset + byteLength p) t
  dsimp only at hwhole hrest
  rw [hwhole, hrest, firstLexeme_skip d hgap, Nat.add_comm _ p.length,
    List.drop_length_add_append, List.take_length_add_append, byteLength_append, Nat.add_assoc]

/-- **A part of a gap in front of a text moves its lexemes on.** -/
theorem rawLexemes_skip {p : List Char} (hgap : gap (p ++ t) = (gap t).shift p.length) :
    rawLexemes d (p ++ t) = (rawLexemes d t).map (Lexeme.shift (byteLength p)) := by
  rw [rawLexemes, rawLexemesFrom_skip d hgap, rawLexemesFrom_shift, rawLexemes]

/-- The lexemes of a text whose first part has nothing unclosed: those of the first
part without its end, and those of the second. -/
theorem rawLexemesFrom_append (offset : Nat) (cs t : List Char)
    (h : Closed (rawLexemesFrom d (cs.length + 1) offset cs)) :
    ∃ init, (∀ l ∈ init, l.kind ≠ .eof) ∧
      rawLexemesFrom d (cs.length + 1) offset cs = init ++ [endLexeme offset cs []] ∧
      rawLexemesFrom d ((cs ++ '\n' :: t).length + 1) offset (cs ++ '\n' :: t)
        = init ++ rawLexemesFrom d (t.length + 1) (offset + (byteLength cs + 1)) t := by
  induction hlen : cs.length using Nat.strongRecOn generalizing cs offset with
  | ind len ih =>
    subst hlen
    have hpart := rawLexemesFrom_unfold d offset cs
    have hwhole := rawLexemesFrom_unfold d offset (cs ++ '\n' :: t)
    dsimp only at hpart hwhole
    by_cases hkind : (firstLexeme d offset cs).1.kind = .eof
    · -- the first part holds nothing more
      rw [if_pos hkind] at hpart
      rw [hpart] at h
      obtain ⟨hgap, hfirst⟩ := firstLexeme_eof d hkind (h _ (List.mem_singleton_self _))
      refine ⟨[], fun l hl => absurd hl List.not_mem_nil, by rw [hpart, hfirst]; rfl, ?_⟩
      have hskip := rawLexemesFrom_skip d (gap_append_end hgap t) offset
      rw [List.append_assoc, List.singleton_append, byteLength_append] at hskip
      exact hskip
    · -- the first part has another token
      obtain ⟨hpos, hle⟩ := firstLexeme_taken d hkind
      rw [firstLexeme_append d (by decide) (by decide) hkind t] at hwhole
      rw [if_neg hkind] at hpart hwhole
      generalize firstLexeme d offset cs = first at hkind hpos hle hpart hwhole
      have hrest : (cs.drop first.2).length = cs.length - first.2 := List.length_drop
      have hbytes : byteLength (cs.take first.2) + byteLength (cs.drop first.2) = byteLength cs := by
        rw [← byteLength_append, List.take_append_drop]
      rw [hpart] at h ⊢
      obtain ⟨init, hinit, hcs, ht⟩ := ih _ (by omega) (offset + byteLength (cs.take first.2))
        (cs.drop first.2) (fun l hl => h l (List.mem_cons_of_mem _ hl)) hrest
      refine ⟨first.1 :: init, ?_, ?_, ?_⟩
      · intro l hl
        rcases List.mem_cons.mp hl with rfl | hl
        · exact hkind
        · exact hinit l hl
      · rw [hrest, hcs, List.cons_append]
        simp only [endLexeme, Nat.add_assoc, hbytes]
      · rw [hwhole, drop_append_break hle, List.take_append_of_le_length hle, ht, List.cons_append,
          Nat.add_assoc, ← Nat.add_assoc (byteLength (cs.take first.2)), hbytes]

/-- **The lexemes of a text in two parts**, of which the first has nothing
unclosed. -/
theorem rawLexemes_append (cs t : List Char) (h : Closed (rawLexemes d cs)) :
    ∃ init, (∀ l ∈ init, l.kind ≠ .eof) ∧ rawLexemes d cs = init ++ [endLexeme 0 cs []] ∧
      rawLexemes d (cs ++ '\n' :: t)
        = init ++ (rawLexemes d t).map (Lexeme.shift (byteLength cs + 1)) := by
  obtain ⟨init, hinit, hcs, ht⟩ := rawLexemesFrom_append d 0 cs t h
  refine ⟨init, hinit, hcs, ?_⟩
  rw [rawLexemes, ht, Nat.zero_add, rawLexemes, ← rawLexemesFrom_shift, Nat.zero_add]

end Append

end SqlSyntax
