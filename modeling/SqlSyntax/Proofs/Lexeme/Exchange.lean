import SqlSyntax.Proofs.Lexeme.Preceding
import SqlSyntax.Proofs.Lexeme.Slice

/-!
# Tokens in place of others

A token of a text may be written in another way.  If blanks set the new spelling off from what
stands around it, all other tokens stay what they are, and so does what becomes of them when the
text is resolved.

## Main definitions

* `Splits y` — a text can be cut in front of the character `y`.
* `OpensWith d w t g` — in front of `t` the text `w` is read as one token, which says `g`.

## Main results

* `gist_resolve` — what a lexeme says when it is resolved depends on what the raw ones say.
* `exists_cutBefore` — what stands before a token is read in the same way before a blank.
* `gist_lexemes_exchange` — **a token in place of another.**
-/

namespace SqlSyntax

variable {d : Dialect} {cs p t u : List Char} {x y : Char} {n : Nat}

/-! ### What resolved lexemes say -/

theorem gist_eq_iff {l l' : Lexeme} : l.gist = l'.gist ↔
    l.kind = l'.kind ∧ l.notes.map Note.problem = l'.notes.map Note.problem := by
  rw [Lexeme.gist, Lexeme.gist, Prod.mk.injEq]

/-- What a clause says depends on what its lexemes say. -/
theorem alike_escapeClause {ls ls' : List Lexeme} (h : ls.map Lexeme.gist = ls'.map Lexeme.gist) :
    (escapeClause ls).Alike (escapeClause ls') := by
  cases ls with
  | nil =>
    obtain rfl := List.map_eq_nil_iff.mp h.symm
    exact ⟨rfl, rfl, rfl, rfl⟩
  | cons u ls =>
  obtain ⟨u', ls', rfl, hu, hls⟩ := List.map_eq_cons_iff.mp h.symm
  obtain ⟨hukind, hunotes⟩ := gist_eq_iff.mp hu
  cases ls with
  | nil =>
    obtain rfl := List.map_eq_nil_iff.mp hls
    exact ⟨rfl, hunotes.symm, rfl, rfl⟩
  | cons v ls =>
  obtain ⟨v', ls', rfl, hv, -⟩ := List.map_eq_cons_iff.mp hls
  obtain ⟨hvkind, hvnotes⟩ := gist_eq_iff.mp hv
  rw [escapeClause, escapeClause, hukind, hvkind]
  split
  · dsimp only
    split
    · split <;> exact ⟨rfl, by simp [hunotes, hvnotes], rfl, rfl⟩
    · exact ⟨rfl, by simp [hunotes, hvnotes], rfl, rfl⟩
  · exact ⟨rfl, hunotes.symm, rfl, rfl⟩

theorem problems_decodedKind (start : Nat) (escape : Char) (k : TokenKind) :
    (decodedKind d start escape k).1 = (decodedKind d 0 escape k).1 ∧
      (decodedKind d start escape k).2.map Note.problem
        = (decodedKind d 0 escape k).2.map Note.problem := by
  have h := decodedKind_shift (d := d) (k := start) 0 escape k
  rw [Nat.zero_add] at h
  rw [h, List.map_map]
  exact ⟨rfl, rfl⟩

theorem gist_decoded {l l' : Lexeme} (hl : l.kind = l'.kind) {escape : Char} {notes notes' : List Note}
    (h : notes.map Note.problem = notes'.map Note.problem) :
    (l.decoded d escape notes).gist = (l'.decoded d escape notes').gist := by
  obtain ⟨hkind, hproblems⟩ := problems_decodedKind (d := d) l.token.span.start escape l.kind
  obtain ⟨hkind', hproblems'⟩ := problems_decodedKind (d := d) l'.token.span.start escape l'.kind
  show ((decodedKind d _ escape l.kind).1, (notes ++ (decodedKind d _ escape l.kind).2).map Note.problem)
    = ((decodedKind d _ escape l'.kind).1,
      (notes' ++ (decodedKind d _ escape l'.kind).2).map Note.problem)
  rw [List.map_append, List.map_append, hkind, hkind', hproblems, hproblems', h, hl]

theorem problems_newNotes {l l' : Lexeme} (h : l.gist = l'.gist) (looked : Bool) :
    (l.newNotes looked).map Note.problem = (l'.newNotes looked).map Note.problem := by
  cases looked with
  | true => rfl
  | false => exact (gist_eq_iff.mp h).2

/-- **What lexemes say when they are resolved depends on what they say.** -/
theorem gist_resolve {ls ls' : List Lexeme} (h : ls.map Lexeme.gist = ls'.map Lexeme.gist)
    (looked : Bool) :
    (resolve d looked ls).map Lexeme.gist = (resolve d looked ls').map Lexeme.gist := by
  induction looked, ls using resolve_induction generalizing ls' with
  | nil looked =>
    obtain rfl := List.map_eq_nil_iff.mp h.symm
    rfl
  | cons looked l ls ih =>
    obtain ⟨l', ls', rfl, hl, hls⟩ := List.map_eq_cons_iff.mp h.symm
    have hnew := problems_newNotes hl.symm looked
    obtain ⟨hkind, -⟩ := gist_eq_iff.mp hl
    obtain ⟨key, hkey, hahead⟩ | hescaped | ⟨hkey, hescaped⟩ := lexeme_cases l
    · -- a keyword asks for the kind of what follows and takes over its notes
      rw [resolve_keyword hkey hahead, resolve_keyword (by rwa [hkind]) hahead, List.map_cons,
        List.map_cons, show (resolve d true ls).map _ = _ from ih true 0 hls.symm]
      congr 1
      rw [gist_eq_iff]
      cases ls with
      | nil =>
        obtain rfl := List.map_eq_nil_iff.mp hls
        simp [Lexeme.kind, hnew]
      | cons v ls =>
        obtain ⟨v', ls', rfl, hv, -⟩ := List.map_eq_cons_iff.mp hls
        obtain ⟨hvkind, hvnotes⟩ := gist_eq_iff.mp hv
        simp [Lexeme.kind, hnew, hvkind, hvnotes]
    · have hclause := alike_escapeClause hls.symm
      have hrest : (ls.drop (escapeClause ls).used).map Lexeme.gist
          = (ls'.drop (escapeClause ls).used).map Lexeme.gist := by
        rw [List.map_drop, List.map_drop, hls]
      rw [resolve_escaped hescaped, resolve_escaped (by rwa [hkind]), List.map_cons, List.map_cons,
        ← hclause.looked, ← hclause.used, ih _ _ hrest, ← hclause.escape]
      congr 1
      refine gist_decoded hkind.symm ?_
      rw [List.map_append, List.map_append, hnew, hclause.problems]
    · rw [resolve_plain hkey hescaped, resolve_plain (by rwa [hkind]) (by rwa [hkind]),
        List.map_cons, List.map_cons, show (resolve d false ls).map _ = _ from ih false 0 hls.symm]
      congr 1
      exact gist_eq_iff.mpr ⟨hkind.symm, hnew⟩

/-! ### Gaps -/

/-- What does not follow one text does not follow it before another. -/
theorem append_ne_cons {c : Char} (ht : t.head? ≠ some c)
    (h : ∀ v, p ++ y :: u = c :: v → False) : ∀ v, p ++ t = c :: v → False := by
  intro v hv
  cases p with
  | nil => exact ht (by rw [← List.nil_append t, hv]; rfl)
  | cons e p => exact h (p ++ y :: u) (by rw [(List.cons.inj hv).1]; rfl)

/-- What is skipped first belongs to the part of a text that is skipped. -/
theorem exists_cons_of_skipped {c : Char} (hle : n + 1 ≤ n + p.length) (h : p ++ y :: u = c :: cs) :
    ∃ q, n + p.length = n + 1 + q.length ∧ p = c :: q ∧ cs = q ++ y :: u := by
  cases p with
  | nil => exact absurd hle (Nat.not_succ_le_self n)
  | cons a p =>
    obtain ⟨rfl, rfl⟩ := List.cons.inj h
    exact ⟨p, by rw [List.length_cons]; omega, rfl, rfl⟩

/-- A gap that ends in front of a character goes on in front of what starts no comment. -/
theorem gapFrom_append {st : GapState} (hdash : t.head? ≠ some '-') (hstar : t.head? ≠ some '*')
    (hslash : t.head? ≠ some '/') (h : gapFrom st n (p ++ y :: u) = .closed (n + p.length)) :
    gapFrom st n (p ++ t) = gapFrom .between (n + p.length) t := by
  generalize hcs : p ++ y :: u = cs at h
  fun_induction gapFrom st n cs generalizing p with
  | case1 => cases h
  | case2 | case3 => cases p <;> cases hcs
  | case4 n cs ih | case5 n cs ih | case9 _ _ n cs ih | case10 _ n cs ih | case11 _ _ n cs ih =>
    -- both characters of a mark are skipped
    have hle := le_of_gapFrom h
    obtain ⟨p, hlen, rfl, hrest⟩ := exists_cons_of_skipped (by omega) hcs
    rw [hlen] at h hle ⊢
    obtain ⟨p, hlen, rfl, rfl⟩ := exists_cons_of_skipped hle hrest.symm
    rw [hlen] at h ⊢
    rw [List.cons_append, List.cons_append, gapFrom]
    exact ih rfl h
  | case6 n c cs hline hblock hblank ih =>
    obtain ⟨p, hlen, rfl, rfl⟩ := exists_cons_of_skipped (le_of_gapFrom h) hcs
    rw [hlen] at h ⊢
    rw [List.cons_append, gapFrom, if_pos hblank]
    · exact ih rfl h
    · exact fun v hc => append_ne_cons hdash (fun v => hline v hc) v
    · exact fun v hc => append_ne_cons hstar (fun v => hblock v hc) v
  | case8 n c cs ih =>
    obtain ⟨p, hlen, rfl, rfl⟩ := exists_cons_of_skipped (le_of_gapFrom h) hcs
    rw [hlen] at h ⊢
    rw [List.cons_append, gapFrom]
    exact ih rfl h
  | case12 _ _ n c cs hopen hzero hsucc ih =>
    obtain ⟨p, hlen, rfl, rfl⟩ := exists_cons_of_skipped (le_of_gapFrom h) hcs
    rw [hlen] at h ⊢
    rw [List.cons_append, gapFrom]
    · exact ih rfl h
    · exact fun v hc => append_ne_cons hstar (fun v => hopen v hc) v
    · exact fun v hd hc => append_ne_cons hslash (fun v => hzero v hd hc) v
    · exact fun i v hd hc => append_ne_cons hslash (fun v => hsucc i v hd hc) v
  | case7 n c cs =>
    cases p with
    | nil => rfl
    | cons a p =>
      rw [Gap.closed.injEq, List.length_cons] at h
      omega

/-! ### Cuts in front of tokens -/

/-- The character in front of which a text is cut makes no comment and no pair of dots with what
stands before. -/
structure Splits (y : Char) : Prop where
  dash : y ≠ '-'
  star : y ≠ '*'
  dot : y ≠ '.'

theorem startsComment_before (hy : Splits y) (c : Char) (u : List Char) :
    startsComment (c :: y :: u) = false := by
  unfold startsComment
  split
  · next heq => exact absurd (List.cons.inj (List.cons.inj heq).2).1 hy.star
  · next heq => exact absurd (List.cons.inj (List.cons.inj heq).2).1 hy.dash
  · rfl

/-- A cut at the end of the gap in front of the first token. -/
theorem cutBehind_gap {offset : Nat} {rest : List Lexeme} (hy : Splits y)
    (hgap : gap (p ++ y :: u) = .closed p.length)
    (h : rawLexemesFrom d ((y :: u).length + 1) (offset + byteLength p) (y :: u) = rest) :
    CutBehind d offset (p ++ y :: u) [] rest p.length := by
  -- a blank and the end of the text alike leave the gap as it is
  have hjoined {t : List Char} (hdash : t.head? ≠ some '-') (hstar : t.head? ≠ some '*')
      (hslash : t.head? ≠ some '/') :
      rawLexemesFrom d ((p ++ t).length + 1) offset (p ++ t)
        = rawLexemesFrom d (t.length + 1) (offset + byteLength p) t := by
    have hend : gap (p ++ y :: u) = .closed (0 + p.length) := by rw [hgap, Nat.zero_add]
    have happend := gapFrom_append hdash hstar hslash hend
    rw [Nat.zero_add] at happend
    exact rawLexemesFrom_skip d (gap_append happend) offset
  refine ⟨by simp, fun hone => ?_, fun hpos => ?_, ?_, fun {x} t hx => ?_, ?_⟩
  · obtain ⟨c, rfl⟩ := List.length_eq_one_iff.mp hone
    rintro ⟨v, hv⟩
    exact hy.dot (List.cons.inj (List.cons.inj hv).2).1.symm
  · obtain ⟨q, c, rfl⟩ := (List.eq_nil_or_concat' p).resolve_left (List.ne_nil_of_length_pos hpos)
    rw [List.length_append, List.length_singleton, Nat.add_sub_cancel, List.append_assoc,
      List.drop_left]
    exact startsComment_before hy c u
  · have hnil := hjoined (t := []) nofun nofun nofun
    rw [List.append_nil] at hnil
    rw [List.take_left, hnil]
    rfl
  · have hhead {c : Char} (hc : isBlank c = false) : (x :: t).head? ≠ some c := by
      intro heq
      rw [Option.some.inj heq, hc] at hx
      cases hx
    rw [List.take_left]
    exact hjoined (hhead rfl) (hhead rfl) (hhead rfl)
  · rwa [List.drop_left, List.take_left]

theorem append_inj_of_byteLength {a a' b b' : List Char} (h : a ++ b = a' ++ b')
    (hbytes : byteLength a = byteLength a') : a = a' ∧ b = b' := by
  have htake := congrArg (takeBytes (byteLength a)) h
  rw [takeBytes_byteLength_append, hbytes, takeBytes_byteLength_append] at htake
  exact ⟨htake, List.append_cancel_left (htake ▸ h)⟩

/-- A lexeme in front of the end of a text is what a rule reads where it starts. -/
theorem isReadFrom_of_start {left : List Char} {l : Lexeme} (hl : l ∈ rawLexemes d (left ++ y :: u))
    (hstart : l.token.span.start = byteLength left) : l.IsReadFrom d (byteLength left) (y :: u) := by
  rcases rawLexeme_cases hl with ⟨-, hplace⟩ | ⟨before, rest, hsource, hread⟩
  · have hpos := byteLength_pos (List.cons_ne_nil y u)
    rw [hstart, Nat.zero_add, byteLength_append] at hplace
    omega
  · have hbytes : byteLength left = byteLength before := by
      obtain ⟨c, cs, -, -, -, rfl⟩ := hread
      rw [← hstart, Nat.zero_add]
    obtain ⟨rfl, rfl⟩ := append_inj_of_byteLength hsource hbytes
    rwa [Nat.zero_add] at hread

/-- **What stands before a token is read in the same way before a blank.** -/
theorem exists_cutBefore {left : List Char} {l : Lexeme} (hy : Splits y)
    (hl : l ∈ rawLexemes d (left ++ y :: u)) (hstart : l.token.span.start = byteLength left) :
    ∃ init rest, (rawLexemes d (y :: u)).map (Lexeme.shift (byteLength left)) = l :: rest ∧
      rawLexemes d (left ++ y :: u) = init ++ l :: rest ∧
      ∀ {x} (t), isBlank x = true → rawLexemes d (left ++ x :: t)
        = init ++ (rawLexemes d (x :: t)).map (Lexeme.shift (byteLength left)) := by
  have hkind : l.kind ≠ .eof := by
    obtain ⟨c, cs, -, -, hread, rfl⟩ := isReadFrom_of_start hl hstart
    exact hread
  obtain ⟨init, rest, hsplit⟩ := List.append_of_mem hl
  have hends := endsOnce_rawLexemes d (left ++ y :: u)
  have hinit : ∀ m ∈ init, m.kind ≠ .eof := (hsplit ▸ hends).ne_eof
  obtain ⟨i, -, hbehind, hcut⟩ := exists_end hsplit hinit
  obtain ⟨p, t, ht, hgap, hplace, hrest⟩ := rawLexemesFrom_behind_gap hkind hbehind
  have hsource : left ++ y :: u = ((left ++ y :: u).take i ++ p) ++ t := by
    rw [List.append_assoc, ← ht, List.take_append_drop]
  have hbytes : byteLength left = byteLength ((left ++ y :: u).take i ++ p) := by
    rw [← hstart, hplace, byteLength_append, Nat.zero_add]
  obtain ⟨hleft, rfl⟩ := append_inj_of_byteLength hsource hbytes
  -- behind the lexemes before it and the gap `p` the token starts
  have hlen : i + p.length = left.length := by
    have h := congrArg List.length ht
    simp only [List.length_drop, List.length_append, List.length_cons] at h
    omega
  have hmove (ls : List Char) : (rawLexemes d ls).map (Lexeme.shift (byteLength left))
      = rawLexemesFrom d (ls.length + 1) (0 + byteLength left) ls :=
    (rawLexemesFrom_shift _ d _ 0 ls).symm
  refine ⟨init, rest, ?_, hsplit, fun {x} t hx => ?_⟩
  · rw [← hrest, hmove, hbytes, byteLength_append, Nat.zero_add, Nat.zero_add]
  · rw [ht] at hgap hcut
    have hjoins := (hcut (cutBehind_gap hy hgap hrest)).joins t hx
    rwa [hlen, List.take_left, ← hmove] at hjoins

/-! ### Tokens in place of others -/

/-- In front of `t` the text `w` is read as one token, which says `g`. -/
def OpensWith (d : Dialect) (w t : List Char) (g : TokenKind × List LexicalProblem) : Prop :=
  ∃ l, rawLexemes d (w ++ t) = l :: (rawLexemes d t).map (Lexeme.shift (byteLength w)) ∧ l.gist = g

theorem OpensWith.gist_rawLexemes {w : List Char} {g : TokenKind × List LexicalProblem}
    (h : OpensWith d w t g) :
    (rawLexemes d (w ++ t)).map Lexeme.gist = g :: (rawLexemes d t).map Lexeme.gist := by
  obtain ⟨l, hread, rfl⟩ := h
  rw [hread, List.map_cons, map_gist_shift]

theorem gist_rawLexemes_blank (hx : isBlank x = true) (t : List Char) :
    (rawLexemes d (x :: t)).map Lexeme.gist = (rawLexemes d t).map Lexeme.gist := by
  rw [rawLexemes_blank hx, map_gist_shift]

/-- **A token in place of another.**  Where a token of a text stands, another spelling of it
between blanks leaves all lexemes what they are, also when they are resolved. -/
theorem gist_lexemes_exchange {left old new right : List Char} {l : Lexeme}
    {g : TokenKind × List LexicalProblem} (hl : l ∈ rawLexemes d (left ++ (old ++ right)))
    (hstart : l.token.span.start = byteLength left) (hsplits : ∃ y ∈ old.head?, Splits y)
    (hold : OpensWith d old right g) (hnew : OpensWith d new (' ' :: right) g) :
    (lexemes d (left ++ ' ' :: (new ++ ' ' :: right))).map Lexeme.gist
      = (lexemes d (left ++ (old ++ right))).map Lexeme.gist := by
  obtain ⟨y, hy, hsplits⟩ := hsplits
  obtain ⟨u, rfl⟩ := List.head?_eq_some_iff.mp hy
  obtain ⟨init, rest, hrest, hinit, hjoins⟩ := exists_cutBefore (u := u ++ right) hsplits hl hstart
  have hblank (ls : List Char) : (rawLexemes d (' ' :: ls)).map Lexeme.gist
      = (rawLexemes d ls).map Lexeme.gist := gist_rawLexemes_blank rfl ls
  refine gist_resolve ?_ false
  rw [hjoins _ rfl, List.map_append, map_gist_shift, hblank, hnew.gist_rawLexemes, hblank,
    List.cons_append, hinit, ← hrest, ← List.cons_append, List.map_append, map_gist_shift,
    hold.gist_rawLexemes]

end SqlSyntax
