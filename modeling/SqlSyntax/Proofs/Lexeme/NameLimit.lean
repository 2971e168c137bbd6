import Mathlib.Data.List.Perm.Basic
import SqlSyntax.Proofs.Lexeme.Naming
import SqlSyntax.Proofs.Lexeme.Tiling

/-!
# The limit of names

Every name that a text hands out is the longest part of a whole name that its dialect
keeps, and it is noted once if that is not all of it.  Resolving moves notes from one
lexeme to another, as it looks ahead, but it neither loses one on a name nor doubles it:
together they are those of the raw lexemes and of the names whose escapes are resolved,
each at the place where its name starts.

## Main definitions

* `Lexeme.cuts d l behind` — the notes on the name that a raw lexeme is read as.
* `allCuts d looked ls` — those on all names of raw lexemes.
* `Diagnostic.isCutWarning` — the warnings of names that were cut.

## Main results

* `perm_cuts_resolve` — resolving keeps the notes on names.
* `filter_allCuts` — the notes at a place are those of the name there.
* `exists_wholeName` — what a raw lexeme stands for that is read as a name.
* `exists_rawLexeme` — a token that is handed out is a raw lexeme, read at its place.
* `tokenize_limits_names` — **names are cut alike, and noted once.**
-/

namespace SqlSyntax

variable {d : Dialect} {l : Lexeme} {ls : List Lexeme} {looked : Bool} {start : Nat}

/-! ### Notes on resolved names -/

/-- The notes on the name that a literal turns out to be once its escapes are resolved. -/
def decodedCuts (d : Dialect) (l : Lexeme) (behind : List Token) : List Note :=
  cutNotes (decodedKind d l.token.span.start (escapeBefore behind) l.kind).2

/-- The notes on the name that a raw lexeme is read as, before the raw tokens behind it. -/
def Lexeme.cuts (d : Dialect) (l : Lexeme) (behind : List Token) : List Note :=
  cutNotes l.notes ++ decodedCuts d l behind

/-- The notes on all names that raw lexemes are read as; the notes of the first one are
left out if it was looked at before. -/
def allCuts (d : Dialect) : Bool → List Lexeme → List Note
  | _, [] => []
  | looked, l :: ls =>
    cutNotes (l.newNotes looked) ++ (decodedCuts d l (ls.map Lexeme.token) ++ allCuts d false ls)

theorem allCuts_false (l : Lexeme) (ls : List Lexeme) :
    allCuts d false (l :: ls) = l.cuts d (ls.map Lexeme.token) ++ allCuts d false ls :=
  (List.append_assoc _ _ _).symm

/-- A lexeme whose notes are taken over by the one before it. -/
theorem allCuts_true (ls : List Lexeme) :
    cutNotes (ls.head?.elim [] Lexeme.notes) ++ allCuts d true ls = allCuts d false ls := by
  cases ls <;> rfl

theorem decodedCuts_plain (hl : isEscaped l.kind = false) (behind : List Token) :
    decodedCuts d l behind = [] := by
  unfold decodedCuts decodedKind
  split
  · next h => rw [h] at hl; cases hl
  · next h => rw [h] at hl; cases hl
  · rfl

theorem decodedCuts_escapedString {body : String} (hl : l.kind = .escapedString body)
    (behind : List Token) : decodedCuts d l behind = [] := by
  unfold decodedCuts
  rw [hl]
  exact cutNotes_faultNotes _ _

theorem decodedCuts_escapedName {body : List Char} (hl : l.kind = .escapedName (String.ofList body))
    (behind : List Token) : decodedCuts d l behind
      = (limitName d l.token.span.start
          (Escape.decodeUnicode (escapeBefore behind) body).text).2 := by
  simp only [decodedCuts, hl, decodedKind, decodedName, String.toList_ofList, cutNotes_append,
    cutNotes_faultNotes, cutNotes_emptyName, cutNotes_limitName, List.nil_append]

/-- A `UESCAPE` clause has no names, and the notes on what follows it are kept. -/
theorem allCuts_escapeClause (ls : List Lexeme) :
    cutNotes (escapeClause ls).notes
      ++ allCuts d (escapeClause ls).looked (ls.drop (escapeClause ls).used)
      = allCuts d false ls := by
  have hword {u : Lexeme} (hu : u.kind.keyword? = some .UESCAPE) (behind : List Token) :
      decodedCuts d u behind = [] :=
    decodedCuts_plain (not_isEscaped_of_uescape (keyword?_eq_some.mp hu)) behind
  fun_cases escapeClause ls with
  | case1 => rfl
  | case2 u => exact allCuts_true [u]
  | case3 u operand rest hu notes s hs e he =>
    have hoperand := decodedCuts_plain (d := d) (l := operand) (by rw [hs]; rfl)
    simp only [notes, allCuts, hword hu, hoperand, cutNotes_append, List.nil_append,
      List.append_assoc]
    rfl
  | case4 u operand rest hu notes start s hs he =>
    have hoperand := decodedCuts_plain (d := d) (l := operand) (by rw [hs]; rfl)
    simp only [notes, allCuts, hword hu, hoperand, cutNotes_append, List.nil_append,
      List.append_assoc]
    rfl
  | case5 u operand rest hu notes start hs =>
    -- the operand is read again, without its notes
    simp only [notes, allCuts, hword hu, cutNotes_append, List.nil_append, List.append_assoc]
    rfl
  | case6 u operand rest hu => exact allCuts_true (u :: operand :: rest)

/-- **Resolving keeps the notes on names**, though not in their order. -/
theorem perm_cuts_resolve (d : Dialect) (looked : Bool) (ls : List Lexeme) :
    (cutNotes ((resolve d looked ls).flatMap Lexeme.notes)).Perm (allCuts d looked ls) := by
  induction looked, ls using resolve_induction with
  | nil looked => cases looked <;> exact .refl _
  | cons looked l ls ih =>
    rw [allCuts]
    obtain ⟨key, hkey, hahead⟩ | hl | ⟨hkey, hl⟩ := lexeme_cases l
    · have hplain : isEscaped l.kind = false := by rw [keyword?_eq_some.mp hkey]; rfl
      rw [resolve_keyword hkey hahead, List.flatMap_cons, cutNotes_append, cutNotes_append,
        decodedCuts_plain hplain, List.nil_append, ← allCuts_true, List.append_assoc]
      exact ((ih true 0).append_left _).append_left _
    · rw [resolve_escaped hl, List.flatMap_cons, Lexeme.decoded]
      simp only [cutNotes_append, List.append_assoc]
      refine List.Perm.append_left _ ?_
      -- the notes on the clause come before those on the literal
      refine (List.Perm.append_left _ (List.Perm.append_left _ (ih _ _))).trans ?_
      rw [decodedCuts, ← escapeClause_escape, ← allCuts_escapeClause ls]
      exact List.perm_append_comm_assoc ..
    · rw [resolve_plain hkey hl, List.flatMap_cons, cutNotes_append, decodedCuts_plain hl,
        List.nil_append]
      exact (ih false 0).append_left _

/-! ### Notes at their places -/

theorem offset_limitName (name : List Char) :
    ∀ n ∈ (limitName d start name).2, n.offset = start := by
  rw [limitName_notes]
  split
  · exact List.forall_mem_singleton.mpr rfl
  · exact List.forall_mem_nil _

theorem Reading.Naming.offset {cs : List Char} {r : Reading} (h : r.Naming d start cs) :
    ∀ n ∈ cutNotes r.notes, n.offset = start := by
  cases h with
  | nameless h => rw [h.notes]; exact List.forall_mem_nil _
  | name _ _ _ _ notes => rw [notes]; exact offset_limitName _
  | escaped _ _ _ _ notes => rw [notes]; exact List.forall_mem_nil _

/-- What has no end cuts no name. -/
theorem Reading.Naming.cutNotes_eof {cs : List Char} {r : Reading} (h : r.Naming d start cs)
    (hr : r.kind = .eof) : cutNotes r.notes = [] := by
  cases h with
  | nameless h => exact h.notes
  | name _ _ _ kind _ => rw [hr] at kind; cases kind
  | escaped _ _ _ _ notes => exact notes

/-- The notes on the name of a raw lexeme are taken where it starts. -/
theorem offset_rawLexeme {count place : Nat} {cs : List Char} :
    ∀ l ∈ rawLexemesFrom d count place cs, ∀ n ∈ cutNotes l.notes,
      n.offset = l.token.span.start := by
  refine forall_rawLexemesFrom (fun offset cs => ?_) (fun _ _ => List.forall_mem_nil _) _ _ _
  unfold firstLexeme
  split
  · exact List.forall_mem_nil _
  · split
    · exact List.forall_mem_nil _
    · next n _ _ c rest _ =>
      have hnaming := naming_readToken d (offset + byteLength (cs.take n)) c rest
      dsimp only
      split
      · next heof =>
        show ∀ n ∈ cutNotes (readToken _ _ _ _).notes, _
        rw [hnaming.cutNotes_eof heof]
        exact List.forall_mem_nil _
      · exact hnaming.offset

theorem offset_decodedCuts (behind : List Token) :
    ∀ n ∈ decodedCuts d l behind, n.offset = l.token.span.start := by
  cases hl : l.kind with
  | escapedName body =>
    have hbody : l.kind = .escapedName (String.ofList body.toList) := by
      rw [hl, String.ofList_toList]
    rw [decodedCuts_escapedName hbody]
    exact offset_limitName _
  | escapedString body => rw [decodedCuts_escapedString hl]; exact List.forall_mem_nil _
  | _ => rw [decodedCuts_plain (by rw [hl]; rfl)]; exact List.forall_mem_nil _

/-- Lexemes whose notes on names are taken where they start. -/
def InPlace (ls : List Lexeme) : Prop :=
  ∀ l ∈ ls, ∀ n ∈ cutNotes l.notes, n.offset = l.token.span.start

theorem InPlace.cuts (h : InPlace ls) (hl : l ∈ ls) (behind : List Token) :
    ∀ n ∈ l.cuts d behind, n.offset = l.token.span.start := by
  intro n hn
  rcases List.mem_append.mp hn with hn | hn
  · exact h l hl n hn
  · exact offset_decodedCuts behind n hn

theorem InPlace.allCuts (h : InPlace ls) :
    ∀ n ∈ allCuts d false ls, ∃ l ∈ ls, n.offset = l.token.span.start := by
  induction ls with
  | nil => exact List.forall_mem_nil _
  | cons l ls ih =>
    intro n hn
    rw [allCuts_false] at hn
    rcases List.mem_append.mp hn with hn | hn
    · exact ⟨l, List.mem_cons_self, h.cuts List.mem_cons_self _ n hn⟩
    · obtain ⟨m, hm, hoffset⟩ := ih (fun m hm => h m (List.mem_cons_of_mem l hm)) n hn
      exact ⟨m, List.mem_cons_of_mem l hm, hoffset⟩

/-- Lexemes that start one behind the other. -/
def StartApart (ls : List Lexeme) : Prop :=
  ls.Pairwise fun a b => a.token.span.start < b.token.span.start

theorem Tiled.le_start {place : Nat} {cs : List Char} (h : Tiled place cs ls) :
    ∀ l ∈ ls, place ≤ l.token.span.start := by
  induction h with
  | last _ hspan _ =>
    refine List.forall_mem_singleton.mpr ?_
    rw [hspan]
    exact Nat.le_add_right _ _
  | cons _ _ hl _ ih =>
    refine List.forall_mem_cons.mpr ⟨?_, fun l hm => ?_⟩
    · rw [hl.span]
      exact Nat.le_add_right _ _
    · have := ih l hm
      omega

theorem Tiled.startApart {place : Nat} {cs : List Char} (h : Tiled place cs ls) :
    StartApart ls := by
  induction h with
  | last _ _ _ => exact List.pairwise_singleton _ _
  | cons _ hne hl hls ih =>
    refine List.pairwise_cons.mpr ⟨fun l hm => ?_, ih⟩
    have hpos := byteLength_pos hne
    have hle := hls.le_start l hm
    rw [hl.span]
    exact Nat.lt_of_lt_of_le (Nat.lt_add_of_pos_right hpos) hle

/-- **The notes on names at a place** are those on the name that starts there. -/
theorem filter_allCuts {before behind : List Lexeme} (hplace : InPlace (before ++ l :: behind))
    (hapart : StartApart (before ++ l :: behind)) :
    (allCuts d false (before ++ l :: behind)).filter (fun n => n.offset = l.token.span.start)
      = l.cuts d (behind.map Lexeme.token) := by
  induction before with
  | nil =>
    have hown := hplace.cuts (d := d) List.mem_cons_self (behind.map Lexeme.token)
    have hbehind : InPlace behind := fun m hm => hplace m (List.mem_cons_of_mem l hm)
    have hothers : ∀ n ∈ allCuts d false behind, ¬ decide (n.offset = l.token.span.start) = true := by
      intro n hn
      obtain ⟨m, hm, hoffset⟩ := hbehind.allCuts n hn
      rw [decide_eq_true_eq, hoffset]
      exact ((List.pairwise_cons.mp hapart).1 m hm).ne'
    rw [List.nil_append, allCuts_false, List.filter_append,
      List.filter_eq_self.mpr fun n hn => decide_eq_true (hown n hn),
      List.filter_eq_nil_iff.mpr hothers, List.append_nil]
  | cons m before ih =>
    rw [List.cons_append] at hplace hapart ⊢
    have hown := hplace.cuts (d := d) List.mem_cons_self ((before ++ l :: behind).map Lexeme.token)
    obtain ⟨hlt, hapart⟩ := List.pairwise_cons.mp hapart
    have hothers := ih (fun k hk => hplace k (List.mem_cons_of_mem m hk)) hapart
    rw [allCuts_false, List.filter_append, hothers, List.filter_eq_nil_iff.mpr, List.nil_append]
    intro n hn
    rw [decide_eq_true_eq, hown n hn]
    exact (hlt l (List.mem_append_right _ List.mem_cons_self)).ne

/-! ### Names of raw lexemes -/

theorem limitName_of_name {t : Token} {behind : List Token} {kept : String}
    (h : (readAs d t behind).kind = .name kept) : t.kind = .name kept ∨
      ∃ body, t.kind = .escapedName body ∧
        kept = (limitName d t.span.start
          (Escape.decodeUnicode (escapeBefore behind) body.toList).text).1 := by
  unfold readAs at h
  split at h
  · -- a keyword is never read as a name
    dsimp only at h
    unfold aheadKind at h
    split at h <;> cases h
  · unfold decodedKind at h
    dsimp only at h
    split at h
    · cases h
    · next body hbody => exact .inr ⟨body, hbody, (TokenKind.name.inj h).symm⟩
    · exact .inl h

theorem isNaming_of_name {t : Token} {behind : List Token} {kept : String}
    (h : (readAs d t behind).kind = .name kept) : t.kind.isNaming = true := by
  rcases limitName_of_name h with hl | ⟨body, hl, -⟩
  · rw [hl]
    rfl
  · rw [hl]
    rfl

/-- **What a raw lexeme stands for that is read as a name**: the whole name, of which it
is what is kept, and what is noted on it. -/
theorem exists_wholeName {rest : List Char} {behind : List Token} {kept : String}
    (hread : l.IsReadFrom d start rest) (hname : (readAs d l.token behind).kind = .name kept) :
    ∃ text after whole, rest = text ++ after ∧
      l.token.span = ⟨start, start + byteLength text⟩ ∧ WholeName behind after text whole ∧
      kept = (limitName d start whole).1 ∧ l.cuts d behind = (limitName d start whole).2 := by
  obtain ⟨c, cs, rfl, -, -, rfl⟩ := hread
  have hnaming := naming_readToken d start c cs
  generalize readToken d start c cs = r at hname hnaming ⊢
  dsimp only at hname ⊢
  cases hnaming with
  | nameless h => exact absurd (h.kind.symm.trans (isNaming_of_name hname)) Bool.false_ne_true
  | @name text after whole hcs taken spelled kind notes =>
    refine ⟨text, after, whole, hcs, ?_, spelled behind, ?_, ?_⟩
    · rw [hcs, taken, List.take_left]
    · rcases limitName_of_name hname with hl | ⟨body, hl, -⟩
      · exact TokenKind.name.inj (hl.symm.trans kind)
      · cases hl.symm.trans kind
    · rw [Lexeme.cuts, decodedCuts_plain (by rw [Lexeme.kind, kind]; rfl), List.append_nil]
      exact notes
  | @escaped text after body hcs taken spelled kind notes =>
    refine ⟨text, after, _, hcs, ?_, spelled behind, ?_, ?_⟩
    · rw [hcs, taken, List.take_left]
    · rcases limitName_of_name hname with hl | ⟨body', hl, hkept⟩
      · cases hl.symm.trans kind
      · obtain rfl := TokenKind.escapedName.inj (hl.symm.trans kind)
        rwa [String.toList_ofList] at hkept
    · rw [Lexeme.cuts, notes, List.nil_append]
      exact decodedCuts_escapedName kind behind

/-! ### Names of a text -/

/-- What the filter of the raw tokens hands out is one of them, read at its place. -/
theorem exists_of_mem_filtered {ts : List Token} {t : Token} (h : t ∈ filtered d ts) :
    ∃ before r behind, ts = before ++ r :: behind ∧ t = readAs d r behind := by
  obtain ⟨i, -, hi⟩ := List.mem_filterMap.mp h
  unfold readAt at hi
  split at hi
  · cases hi
  · next r behind hdrop =>
    exact ⟨ts.take i, r, behind, by rw [← hdrop, List.take_append_drop], (Option.some.inj hi).symm⟩

/-- A token that is handed out is that of a raw lexeme, read at its place. -/
theorem exists_rawLexeme {source : List Char} {t : Token}
    (ht : t ∈ (TokenStream.ofText d source).tokenize.1) :
    ∃ before l behind, rawLexemes d source = before ++ l :: behind ∧
      t = readAs d l.token (behind.map Lexeme.token) := by
  have hresolved : (TokenStream.ofText d source).tokenize = _ :=
    TokenStream.tokenize_of_endsOnce (endsOnce_lexemes d source)
  have hfiltered := tokens_resolve d false _ (endsOnce_rawLexemes d source).endsClear
  rw [hresolved] at ht
  obtain ⟨ahead, r, behind, hcut, rfl⟩ := exists_of_mem_filtered
    (show t ∈ filtered d ((rawLexemes d source).map Lexeme.token) from hfiltered ▸ ht)
  obtain ⟨before, tail, hlexemes, rfl, htail⟩ := List.map_eq_append_iff.mp hcut
  obtain ⟨l, after, rfl, rfl, rfl⟩ := List.map_eq_cons_iff.mp htail
  exact ⟨before, l, after, hlexemes, rfl⟩

theorem readAs_span (d : Dialect) (t : Token) (behind : List Token) :
    (readAs d t behind).span = t.span := by
  unfold readAs
  split <;> rfl

/-- The warning of a name that was cut. -/
def Diagnostic.isCutWarning (g : Diagnostic) : Bool :=
  g.isWarning && "identifier \"".toList.isPrefixOf g.message.toList

theorem isCutWarning_of_head {g : Diagnostic} {c : Char}
    (hmessage : g.message.toList.head? = some c) (hc : c ≠ 'i') : g.isCutWarning = false := by
  obtain ⟨rest, hmessage⟩ := List.head?_eq_some_iff.mp hmessage
  have hprefix : List.isPrefixOf "identifier \"".toList (c :: rest) = false := by
    simp only [String.reduceToList, List.isPrefixOf_cons_cons, Bool.and_eq_false_iff]
    exact .inl (beq_eq_false_iff_ne.mpr hc.symm)
  rw [Diagnostic.isCutWarning, hmessage, hprefix, Bool.and_false]

/-- Of the notes, those on names that were cut give such warnings. -/
theorem isCutWarning_note (ix : LineIndex) (n : Note) :
    (n.diagnostic ix).isCutWarning = n.isCut := by
  cases hproblem : n.problem with
  | nameCut whole kept =>
    have hmessage : (n.diagnostic ix).message = "identifier \"" ++ whole
        ++ "\" will be truncated to \"" ++ kept ++ "\"" := by
      rw [Note.diagnostic, hproblem]
      rfl
    have hcut : n.isCut = true := by rw [Note.isCut, hproblem]
    have hwarning : (n.diagnostic ix).isWarning = true := by
      rw [Note.diagnostic, hproblem]
      rfl
    rw [hcut, Diagnostic.isCutWarning, hwarning, hmessage, Bool.true_and,
      List.isPrefixOf_iff_prefix]
    simp only [String.toList_append, List.append_assoc]
    exact List.prefix_append _ _
  | plainEscape =>
    have hcut : n.isCut = false := by rw [Note.isCut, hproblem]
    rw [hcut]
    refine isCutWarning_of_head ?_ (by decide : 'n' ≠ 'i')
    rw [Note.diagnostic, hproblem]
    show LexicalProblem.plainEscape.message.toList.head? = some 'n'
    decide +kernel
  | _ =>
    rw [Diagnostic.isCutWarning, Note.diagnostic, Note.isCut, hproblem]
    rfl

/-- Offsets at which characters start have locations of their own. -/
theorem LineIndex.locate_inj {source : List Char} {j k : Nat}
    (h : (ofText source).locate (byteLength (source.take j))
      = (ofText source).locate (byteLength (source.take k))) :
    byteLength (source.take j) = byteLength (source.take k) := by
  have hoffset := congrArg Location.offset h
  rwa [offset_locate, offset_locate, takeBytes_byteLength_take, takeBytes_byteLength_take] at hoffset

/-- Tokens start at the same location if they start at the same offset. -/
theorem locate_start_iff {source : List Char} {m : Lexeme} (hm : m ∈ rawLexemes d source)
    (hl : l ∈ rawLexemes d source) :
    (LineIndex.ofText source).locate m.token.span.start
      = (LineIndex.ofText source).locate l.token.span.start
      ↔ m.token.span.start = l.token.span.start := by
  have hstarts := (laid_rawLexemes d source).starts
  obtain ⟨j, hj⟩ := hstarts m.token.span (List.mem_map_of_mem hm)
  obtain ⟨k, hk⟩ := hstarts l.token.span (List.mem_map_of_mem hl)
  rw [hj, hk, Nat.zero_add, Nat.zero_add]
  exact ⟨LineIndex.locate_inj, congrArg _⟩

/-- **The warnings at the place of a name** are the notes taken on it. -/
theorem perm_cutWarnings {source : List Char} {before behind : List Lexeme}
    (hraw : rawLexemes d source = before ++ l :: behind) :
    (((lexemes d source).flatMap (Lexeme.diagnostics (LineIndex.ofText source))).filter
      fun g => g.isCutWarning
        && g.location == some ((LineIndex.ofText source).locate l.token.span.start)).Perm
    ((l.cuts d (behind.map Lexeme.token)).map (Note.diagnostic (LineIndex.ofText source))) := by
  have hplace : InPlace (rawLexemes d source) := offset_rawLexeme
  have hapart : StartApart (rawLexemes d source) := (tiled_rawLexemesFrom d 0 source).startApart
  have hcuts := perm_cuts_resolve d false (rawLexemes d source)
  have hnotes : (lexemes d source).flatMap (Lexeme.diagnostics (LineIndex.ofText source))
      = ((lexemes d source).flatMap Lexeme.notes).map (Note.diagnostic (LineIndex.ofText source)) := by
    rw [List.map_flatMap]
    rfl
  have hl : l ∈ rawLexemes d source := by
    rw [hraw]
    exact List.mem_append_right _ List.mem_cons_self
  -- at the places of names, the same location is the same offset
  have hsame : ∀ n ∈ allCuts d false (rawLexemes d source),
      (some ((LineIndex.ofText source).locate n.offset)
        == some ((LineIndex.ofText source).locate l.token.span.start))
        = decide (n.offset = l.token.span.start) := by
    intro n hn
    obtain ⟨m, hm, hoffset⟩ := hplace.allCuts n hn
    rw [Bool.eq_iff_iff, beq_iff_eq, decide_eq_true_eq, Option.some.injEq, hoffset]
    exact locate_start_iff hm hl
  have hfilter := filter_allCuts (d := d) (hraw ▸ hplace) (hraw ▸ hapart)
  rw [← hraw, ← List.filter_congr hsame] at hfilter
  rw [hnotes, List.filter_map, ← hfilter]
  refine List.Perm.map _ ((List.Perm.of_eq ?_).trans (hcuts.filter _))
  rw [cutNotes, List.filter_filter]
  refine List.filter_congr fun n _ => ?_
  rw [Function.comp_apply, isCutWarning_note, Bool.and_comm]
  rfl

/-- **Names are cut alike, and noted once.**  A token that is a name takes a text that
stands for a whole name: a bare word that is no keyword, a name in quotes, or one with
Unicode escapes.  The token is the longest beginning of the whole name that takes no more
bytes than its dialect keeps.  If that is not all of it, there is one warning of a cut name
at the place of the token, and otherwise there is none. -/
theorem tokenize_limits_names (d : Dialect) (source : List Char) :
    let raw := (TokenStream.ofRaw d source).tokenize.1
    let resolved := (TokenStream.ofText d source).tokenize
    ∀ t ∈ resolved.1, ∀ kept, t.kind = .name kept →
      ∃ before text rest whole, source = before ++ (text ++ rest) ∧
        t.span = ⟨byteLength before, byteLength before + byteLength text⟩ ∧
        (∃ ahead r behind, raw = ahead ++ r :: behind ∧ r.span = t.span ∧
          WholeName behind rest text whole) ∧
        IsLongestWithin d.maxNameLength whole kept.toList ∧
        let location := (LineIndex.ofText source).locate t.span.start
        resolved.2.filter (fun g => g.isCutWarning && g.location == some location)
          = if d.maxNameLength < byteLength whole then
              [⟨.warning, "identifier \"" ++ String.ofList whole ++ "\" will be truncated to \""
                ++ kept ++ "\"", some location⟩]
            else [] := by
  intro raw resolved t ht kept hkind
  have hraw : raw = (rawLexemes d source).map Lexeme.token :=
    congrArg Prod.fst (TokenStream.tokenize_of_endsOnce (endsOnce_rawLexemes d source))
  have hresolved : resolved = _ := TokenStream.tokenize_of_endsOnce (endsOnce_lexemes d source)
  obtain ⟨before, l, after, hlexemes, rfl⟩ := exists_rawLexeme ht
  have hmem : l ∈ rawLexemes d source := by
    rw [hlexemes]
    exact List.mem_append_right _ List.mem_cons_self
  rcases rawLexeme_cases hmem with ⟨heof, -⟩ | ⟨front, rest, rfl, hread⟩
  · -- the end of the text is no name
    have hnaming := isNaming_of_name hkind
    rw [show l.token.kind = _ from heof] at hnaming
    cases hnaming
  · rw [Nat.zero_add] at hread
    obtain ⟨text, rest, whole, rfl, hspan, hwhole, rfl, hcuts⟩ := exists_wholeName hread hkind
    have hperm := perm_cutWarnings hlexemes
    have hsplit : raw = before.map Lexeme.token ++ l.token :: after.map Lexeme.token := by
      rw [hraw, hlexemes, List.map_append, List.map_cons]
    rw [hresolved, readAs_span, hspan]
    refine ⟨front, text, rest, whole, rfl, rfl, ⟨_, _, _, hsplit, hspan, hwhole⟩,
      isLongestWithin_limitName d _ whole, ?_⟩
    rw [hcuts, limitName_notes, hspan] at hperm
    dsimp only
    show List.filter _ ([] ++ _) = _
    rw [List.nil_append]
    split
    · next hlong =>
      rw [if_pos hlong] at hperm
      exact List.perm_singleton.mp hperm
    · next hshort =>
      rw [if_neg hshort] at hperm
      exact hperm.eq_nil

/-- A name whose escapes are resolved by the clause behind it, and which is cut where a
character would not fit. -/
theorem tokenize_limits_names_escaped :
    let d := { Dialect.postgres with maxNameLength := 3 }
    let source := "U&\"a!00e9b\" UESCAPE '!' + abc".toList
    let resolved := (TokenStream.ofText d source).tokenize
    let t : Token := ⟨.name "aé", ⟨0, 11⟩⟩
    t ∈ resolved.1 ∧ t.kind = .name "aé" ∧
      ∃ before text rest whole, source = before ++ (text ++ rest) ∧
        t.span = ⟨byteLength before, byteLength before + byteLength text⟩ ∧
        (∃ ahead r behind, (TokenStream.ofRaw d source).tokenize.1 = ahead ++ r :: behind ∧
          r.span = t.span ∧ WholeName behind rest text whole) ∧
        IsLongestWithin 3 whole "aé".toList ∧
        let location := (LineIndex.ofText source).locate 0
        resolved.2.filter (fun g => g.isCutWarning && g.location == some location)
          = if 3 < byteLength whole then
              [⟨.warning, "identifier \"" ++ String.ofList whole ++ "\" will be truncated to \""
                ++ "aé" ++ "\"", some location⟩]
            else [] := by
  intro d source resolved t
  have ht : t ∈ resolved.1 := by decide +kernel
  exact ⟨ht, rfl, tokenize_limits_names d source t ht "aé" rfl⟩

end SqlSyntax
