import SqlSyntax.Proofs.Lexeme.Locality
import SqlSyntax.Proofs.Lexeme.Resolving
import SqlSyntax.Proofs.Text.Lines

/-!
# Block comments nest

A text is read as marks that open and close comments, and characters between them.  Where a
comment starts, the shortest beginning that closes as many comments as it opens is left out, and
the rest is read as if it stood alone.  If there is no such beginning, the comment has no end.

## Main definitions

* `CommentMark`, `commentMarks` — a text as marks and characters.
* `ClosesMore depth` — so many more comments are closed than opened.
* `IsShortest` — the shortest beginning of some marks for which something holds.
* `BlockEnd` — what a reader of gaps finds in a comment.

## Main results

* `blockEnd` — a reader in nested comments stops where all of them are closed.
* `rawLexemes_comment` — the lexemes of a text that starts with a comment.
* `tokenize_comment` — **block comments nest.**
-/

namespace SqlSyntax

/-! ### Marks -/

/-- A part of a text in which comments are looked for. -/
inductive CommentMark
  /-- A comment is opened. -/
  | opening
  /-- A comment is closed. -/
  | closing
  /-- Any other character. -/
  | char (c : Char)
  deriving DecidableEq, Repr

/-- What is written for a mark. -/
def CommentMark.text : CommentMark → List Char
  | opening => ['/', '*']
  | closing => ['*', '/']
  | char c => [c]

/-- A text as marks, read from left to right; marks do not share characters. -/
def commentMarks : List Char → List CommentMark
  | [] => []
  | '/' :: '*' :: cs => .opening :: commentMarks cs
  | '*' :: '/' :: cs => .closing :: commentMarks cs
  | c :: cs => .char c :: commentMarks cs

/-- A slash that has opened a comment does not close it. -/
example : commentMarks "/*/".toList = [.opening, .char '/'] := rfl

/-- What is written for some marks. -/
def textOf (ms : List CommentMark) : List Char :=
  ms.flatMap CommentMark.text

@[simp] theorem textOf_cons (m : CommentMark) (ms : List CommentMark) :
    textOf (m :: ms) = m.text ++ textOf ms :=
  List.flatMap_cons

/-- The marks of a text are all of it. -/
theorem textOf_commentMarks (cs : List Char) : textOf (commentMarks cs) = cs := by
  fun_induction commentMarks cs with
  | case1 => rfl
  | case2 cs ih | case3 cs ih => rw [textOf_cons, ih]; rfl
  | case4 c cs _ _ ih => rw [textOf_cons, ih]; rfl

/-- A beginning of the marks is a beginning of the text. -/
theorem append_of_isPrefix_commentMarks {cs : List Char} {ms : List CommentMark}
    (h : ms <+: commentMarks cs) :
    ∃ rest, cs = textOf ms ++ rest := by
  obtain ⟨t, ht⟩ := h
  refine ⟨textOf t, ?_⟩
  rw [← textOf_commentMarks cs, ← ht]
  exact List.flatMap_append

/-- So many more comments are closed than opened. -/
def ClosesMore (depth : Nat) (ms : List CommentMark) : Prop :=
  ms.count .closing = ms.count .opening + depth

section ClosesMore

variable {depth : Nat} {ms : List CommentMark}

theorem not_closesMore_nil : ¬ ClosesMore (depth + 1) [] :=
  nofun

theorem closesMore_opening : ClosesMore depth (.opening :: ms) ↔ ClosesMore (depth + 1) ms := by
  have hother : (CommentMark.opening :: ms).count .closing = ms.count .closing := rfl
  rw [ClosesMore, ClosesMore, List.count_cons_self, hother]
  omega

theorem closesMore_closing : ClosesMore (depth + 1) (.closing :: ms) ↔ ClosesMore depth ms := by
  have hother : (CommentMark.closing :: ms).count .opening = ms.count .opening := rfl
  rw [ClosesMore, ClosesMore, List.count_cons_self, hother]
  omega

theorem closesMore_char (c : Char) : ClosesMore depth (.char c :: ms) ↔ ClosesMore depth ms :=
  Iff.rfl

end ClosesMore

/-! ### The shortest beginning -/

/-- `p` is the shortest beginning of some marks for which `P` holds, the empty one apart. -/
structure IsShortest (P : List CommentMark → Prop) (ms p : List CommentMark) : Prop where
  isPrefix : p <+: ms
  ne_nil : p ≠ []
  holds : P p
  shortest : ∀ q, q <+: ms → q ≠ [] → P q → p.length ≤ q.length

/-- There is no such beginning. -/
def HasNone (P : List CommentMark → Prop) (ms : List CommentMark) : Prop :=
  ∀ q, q <+: ms → q ≠ [] → ¬ P q

section Shortest

variable {P Q : List CommentMark → Prop} {m : CommentMark} {ms p : List CommentMark}

/-- Beginnings that are not the empty one have the first mark. -/
theorem exists_of_isPrefix_cons {q : List CommentMark} (hq : q <+: m :: ms) (hne : q ≠ []) :
    ∃ q', q = m :: q' ∧ q' <+: ms := by
  cases q with
  | nil => exact absurd rfl hne
  | cons m' q' =>
    obtain ⟨rfl, hq'⟩ := List.cons_prefix_cons.mp hq
    exact ⟨q', rfl, hq'⟩

theorem IsShortest.cons (hP : ∀ q, P (m :: q) ↔ Q q) (hnil : ¬ Q []) (h : IsShortest Q ms p) :
    IsShortest P (m :: ms) (m :: p) := by
  refine ⟨List.cons_prefix_cons.mpr ⟨rfl, h.isPrefix⟩, List.cons_ne_nil _ _,
    (hP p).mpr h.holds, fun q hq hne hholds => ?_⟩
  obtain ⟨q, rfl, hrest⟩ := exists_of_isPrefix_cons hq hne
  have hQ := (hP q).mp hholds
  refine Nat.succ_le_succ (h.shortest q hrest ?_ hQ)
  rintro rfl
  exact hnil hQ

theorem HasNone.cons (hP : ∀ q, P (m :: q) ↔ Q q) (hnil : ¬ Q []) (h : HasNone Q ms) :
    HasNone P (m :: ms) := by
  intro q hq hne hholds
  obtain ⟨q, rfl, hrest⟩ := exists_of_isPrefix_cons hq hne
  have hQ := (hP q).mp hholds
  refine h q hrest ?_ hQ
  rintro rfl
  exact hnil hQ

/-- A single mark is the shortest beginning of all. -/
theorem isShortest_singleton (h : P [m]) (ms : List CommentMark) : IsShortest P (m :: ms) [m] :=
  ⟨⟨ms, rfl⟩, List.cons_ne_nil _ _, h, fun _ _ hne _ => List.length_pos_iff.mpr hne⟩

end Shortest

/-! ### Inside comments -/

/-- What a reader of gaps finds in comments nested to `depth + 1`, when it has read `n`
characters: it goes on between comments behind the shortest beginning of the text that closes them
all, or there is none and the comment that started after `start` characters has no end. -/
inductive BlockEnd (depth start n : Nat) (cs : List Char) : Prop
  | closed (p : List CommentMark) (h : IsShortest (ClosesMore (depth + 1)) (commentMarks cs) p)
    (hgap : ∀ rest, cs = textOf p ++ rest →
      gapFrom (.block depth start) n cs = gapFrom .between (n + (textOf p).length) rest)
  | unclosed (h : HasNone (ClosesMore (depth + 1)) (commentMarks cs))
    (hgap : gapFrom (.block depth start) n cs = .unclosed start)

/-- A mark behind which the reader is still in comments. -/
theorem BlockEnd.cons {depth depth' start n : Nat} {m : CommentMark} {cs : List Char}
    (hmarks : commentMarks (m.text ++ cs) = m :: commentMarks cs)
    (hcloses : ∀ q, ClosesMore (depth + 1) (m :: q) ↔ ClosesMore (depth' + 1) q)
    (hgap : gapFrom (.block depth start) n (m.text ++ cs)
      = gapFrom (.block depth' start) (n + m.text.length) cs)
    (h : BlockEnd depth' start (n + m.text.length) cs) : BlockEnd depth start n (m.text ++ cs) := by
  cases h with
  | closed p hp hrest =>
    refine .closed (m :: p) ?_ fun rest hcs => ?_
    · rw [hmarks]
      exact hp.cons hcloses not_closesMore_nil
    · rw [textOf_cons, List.append_assoc] at hcs
      rw [hgap, hrest rest (List.append_cancel_left hcs), textOf_cons, List.length_append,
        Nat.add_assoc]
  | unclosed hnone hopen =>
    refine .unclosed ?_ (hgap.trans hopen)
    rw [hmarks]
    exact hnone.cons hcloses not_closesMore_nil

/-- **A reader in nested comments stops where all of them are closed.** -/
theorem blockEnd (depth start n : Nat) (cs : List Char) : BlockEnd depth start n cs := by
  -- the induction is on the marks; the depth goes up and down with them
  fun_induction commentMarks cs generalizing depth n with
  | case1 =>
    refine .unclosed (fun q hq hne => ?_) (by rw [gapFrom])
    exact absurd (List.prefix_nil.mp hq) hne
  | case2 cs ih =>
    have hrest : BlockEnd (depth + 1) start (n + 2) cs := ih _ _
    refine hrest.cons (m := .opening) ?_ (fun q => closesMore_opening) ?_
    · rw [CommentMark.text, List.cons_append, List.singleton_append, commentMarks]
    · rw [CommentMark.text, List.cons_append, List.singleton_append, gapFrom]
      rfl
  | case3 cs ih =>
    cases depth with
    | zero =>
      -- the outer comment ends here
      refine .closed [.closing] ?_ fun rest hcs => ?_
      · have hone : ClosesMore 1 [.closing] := rfl
        rw [commentMarks]
        exact isShortest_singleton hone _
      · obtain rfl : cs = rest := by simpa [textOf, CommentMark.text] using hcs
        rw [gapFrom]
        rfl
    | succ depth =>
      have hrest : BlockEnd depth start (n + 2) cs := ih _ _
      refine hrest.cons (m := .closing) ?_ (fun q => closesMore_closing) ?_
      · rw [CommentMark.text, List.cons_append, List.singleton_append, commentMarks]
      · rw [CommentMark.text, List.cons_append, List.singleton_append, gapFrom]
        rfl
  | case4 c cs hopen hclose ih =>
    have hrest : BlockEnd depth start (n + 1) cs := ih _ _
    refine hrest.cons (m := .char c) ?_ (fun q => closesMore_char c) ?_
    · rw [CommentMark.text, List.singleton_append, commentMarks]
      all_goals assumption
    · rw [CommentMark.text, List.singleton_append, gapFrom]
      · rfl
      · exact hopen
      · exact fun _ _ hc => hclose _ hc
      · exact fun _ _ _ hc => hclose _ hc

/-! ### A comment in front of a text -/

variable (d : Dialect) (cs : List Char)

/-- **The lexemes of a text that starts with a comment** are those behind it, if it has an end. -/
theorem rawLexemes_comment :
    let text := '/' :: '*' :: cs
    (∃ p rest, IsShortest (ClosesMore 0) (commentMarks text) p ∧ text = textOf p ++ rest ∧
      rawLexemes d text = (rawLexemes d rest).map (Lexeme.shift (byteLength (textOf p)))) ∨
    HasNone (ClosesMore 0) (commentMarks text) ∧
      rawLexemes d text = [endLexeme 0 text [⟨.unclosedComment, 0⟩]] := by
  intro text
  have hmarks : commentMarks text = .opening :: commentMarks cs := by rw [commentMarks]
  have hinside : gap text = gapFrom (.block 0 0) 2 cs := by rw [gap, gapFrom]
  -- the first mark opens the comment that what follows has to close
  have hcloses (q : List CommentMark) : ClosesMore 0 (.opening :: q) ↔ ClosesMore 1 q :=
    closesMore_opening
  rw [hmarks]
  rcases blockEnd 0 0 2 cs with ⟨p, hp, hgap⟩ | ⟨hnone, hgap⟩
  · obtain ⟨rest, rfl⟩ := append_of_isPrefix_commentMarks hp.isPrefix
    have htext : text = textOf (.opening :: p) ++ rest := rfl
    refine .inl ⟨.opening :: p, rest, hp.cons hcloses not_closesMore_nil, htext, ?_⟩
    rw [htext] at hinside ⊢
    refine rawLexemes_skip d (gap_append ?_)
    rw [hinside, hgap rest rfl, textOf_cons, List.length_append]
    rfl
  · refine .inr ⟨hnone.cons hcloses not_closesMore_nil, ?_⟩
    rw [rawLexemes, rawLexemesFrom, firstLexeme, hinside, hgap]
    rfl

/-- **Block comments nest.**  A text that starts with a comment is read mark by mark.  If some
beginning closes as many comments as it opens, the shortest one is left out: the tokens are those
of the rest, which only stand further on, and so are the problems; nothing is recorded for the
comment.  Otherwise there is no token, and the only problem is that the comment at the start of the
text has no end. -/
theorem tokenize_comment :
    let text := '/' :: '*' :: cs
    let whole := (TokenStream.ofRaw d text).tokenize
    (∃ p rest, IsShortest (ClosesMore 0) (commentMarks text) p ∧ text = textOf p ++ rest ∧
      let behind := (TokenStream.ofRaw d rest).tokenize
      let skipped := byteLength (textOf p)
      whole.1 = behind.1.map (Token.shift skipped) ∧
      whole.2.map Diagnostic.verdict = behind.2.map Diagnostic.verdict ∧
      rawLexemes d text = (rawLexemes d rest).map (Lexeme.shift skipped) ∧
      lexemes d text = (lexemes d rest).map (Lexeme.shift skipped)) ∨
    HasNone (ClosesMore 0) (commentMarks text) ∧
      whole = ([⟨.eof, ⟨byteLength text, byteLength text⟩⟩],
        [⟨.error, "unterminated /* comment", some ⟨0, 1, 1⟩⟩]) := by
  intro text whole
  have hwhole : whole = _ := TokenStream.tokenize_ofRaw d text
  rcases rawLexemes_comment d cs with ⟨p, rest, hp, htext, hraw⟩ | ⟨hnone, hraw⟩
  · refine .inl ⟨p, rest, hp, htext, ?_⟩
    rw [hwhole, TokenStream.tokenize_ofRaw, hraw]
    refine ⟨?_, ?_, rfl, ?_⟩
    · rw [List.map_map, List.map_map]
      rfl
    · -- the places of the diagnostics are counted in different texts
      rw [List.flatMap_map, List.map_flatMap, List.map_flatMap]
      simp only [Lexeme.verdict_diagnostics_shift (LineIndex.ofText rest)]
    · rw [lexemes, hraw, resolve_shift, lexemes]
  · refine .inr ⟨hnone, ?_⟩
    have hstart := LineIndex.locate_zero text
    rw [hwhole, hraw, ← hstart, ← Nat.zero_add (byteLength text)]
    rfl

end SqlSyntax
