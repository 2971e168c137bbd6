import SqlSyntax.Proofs.Lexeme.Resolving
import SqlSyntax.Proofs.Rendering.Quotes

/-!
# The settings of a dialect

A dialect can be set to warn of escapes in plain strings and to take a backslash for
an ordinary character.  The first setting changes nothing but the warnings.  The second one
changes nothing in a text without backslashes, unless there is a string with Unicode
escapes, which is unsafe where backslashes start escapes.

## Main definitions

* `Dialect.warning`, `Dialect.standard` — a dialect with one setting changed.
* `Lexeme.silent` — a lexeme without warnings of escapes.

## Main results

* `lexemes_silent` — **without warnings, a text has the same lexemes but for these.**
* `lexemes_standard` — **a text without backslashes has the same lexemes either way.**
-/

namespace SqlSyntax

variable {d : Dialect} {start : Nat} {c : Char} {cs : List Char} {b : Bool}

/-- The dialect that warns of escapes or does not. -/
abbrev Dialect.warning (d : Dialect) (b : Bool) : Dialect :=
  { d with escapeWarning := b }

/-- The dialect in which a backslash is an ordinary character or not. -/
abbrev Dialect.standard (d : Dialect) (b : Bool) : Dialect :=
  { d with standardStrings := b }

/-! ### Warnings of escapes -/

/-- Whether a note is no warning of an escape. -/
def Note.isSilent (n : Note) : Bool :=
  n.problem ≠ .plainEscape

/-- A reading without warnings of escapes. -/
def Reading.silent (r : Reading) : Reading :=
  { r with notes := r.notes.filter Note.isSilent }

/-- A lexeme without warnings of escapes. -/
def Lexeme.silent (l : Lexeme) : Lexeme :=
  { l with notes := l.notes.filter Note.isSilent }

@[simp] theorem Lexeme.silent_token (l : Lexeme) : l.silent.token = l.token := rfl

@[simp] theorem Lexeme.silent_kind (l : Lexeme) : l.silent.kind = l.kind := rfl

@[simp] theorem Lexeme.silent_notes (l : Lexeme) :
    l.silent.notes = l.notes.filter Note.isSilent := rfl

/-- There is no warning of an escape among the notes. -/
def Reading.IsSilent (r : Reading) : Prop :=
  ∀ n ∈ r.notes, n.isSilent = true

namespace Reading.IsSilent

variable {r r' : Reading} {p : Prop} [Decidable p]

theorem silent_eq (h : r.IsSilent) : r.silent = r := by
  rw [silent, List.filter_eq_self.mpr h]

theorem of_nil (h : r.notes = []) : r.IsSilent := by
  intro n hn
  rw [h] at hn
  cases hn

theorem ite (h : p → r.IsSilent) (h' : ¬p → r'.IsSilent) : (if p then r else r').IsSilent := by
  split
  · exact h ‹_›
  · exact h' ‹_›

end Reading.IsSilent

theorem isSilent_faultNotes (start : Nat) (fs : List Escape.Fault) :
    ∀ n ∈ faultNotes start fs, n.isSilent = true := by
  intro n hn
  obtain ⟨f, -, rfl⟩ := List.mem_map.mp hn
  rfl

theorem isSilent_limitName (name : List Char) :
    ∀ n ∈ (limitName d start name).2, n.isSilent = true := by
  unfold limitName
  dsimp only
  split
  · nofun
  · exact List.forall_mem_singleton.mpr rfl

theorem isSilent_digitNotes {radix : Nat} {problem : Char → LexicalProblem}
    (h : ∀ c, problem c ≠ .plainEscape) (body : List Char) :
    ∀ n ∈ digitNotes start radix problem body, n.isSilent = true := by
  unfold digitNotes
  cases body.find? _ with
  | none => nofun
  | some c => exact List.forall_mem_singleton.mpr (decide_eq_true (h c))

theorem isSilent_unfinished {problem : LexicalProblem} (h : problem ≠ .plainEscape)
    {notes : List Note} (hnotes : ∀ n ∈ notes, n.isSilent = true) :
    (unfinished start problem cs notes).IsSilent := by
  intro n hn
  obtain hn | hn := List.mem_append.mp hn
  · exact hnotes n hn
  · cases List.mem_singleton.mp hn
    exact decide_eq_true h

theorem isSilent_readWord : (readWord d start cs).IsSilent := by
  unfold readWord
  dsimp only
  split
  · exact .of_nil rfl
  · exact isSilent_limitName _

theorem isSilent_readQuotedName : (readQuotedName d start cs).IsSilent := by
  unfold readQuotedName
  split
  · exact isSilent_unfinished (by decide) (List.forall_mem_nil _)
  · intro n hn
    obtain hn | hn := List.mem_append.mp hn
    · split at hn
      · cases List.mem_singleton.mp hn
        rfl
      · cases hn
    · exact isSilent_limitName _ n hn

theorem isSilent_readPlainString {intro : Nat} : (readPlainString start intro cs).IsSilent := by
  unfold readPlainString
  split
  · exact isSilent_unfinished (by decide) (List.forall_mem_nil _)
  · exact .of_nil rfl

theorem isSilent_readEscapeString {intro : Nat} :
    (readEscapeString false start intro cs).IsSilent := by
  unfold readEscapeString
  simp only [Bool.false_and, Bool.false_eq_true, if_false, List.nil_append]
  exact .ite (fun _ => isSilent_faultNotes _ _)
    fun _ => isSilent_unfinished (by decide) (isSilent_faultNotes _ _)

theorem isSilent_readBinary : (readBinary start cs).IsSilent := by
  unfold readBinary
  split
  · exact isSilent_unfinished (by decide) (List.forall_mem_nil _)
  · exact isSilent_digitNotes (fun _ h => by cases h) _

theorem isSilent_readHex : (readHex start cs).IsSilent := by
  unfold readHex
  split
  · exact isSilent_unfinished (by decide) (List.forall_mem_nil _)
  · exact isSilent_digitNotes (fun _ h => by cases h) _

theorem isSilent_readEscapedName : (readEscapedName start cs).IsSilent := by
  unfold readEscapedName
  split
  · exact isSilent_unfinished (by decide) (List.forall_mem_nil _)
  · exact .of_nil rfl

theorem isSilent_readEscapedString : (readEscapedString d start cs).IsSilent := by
  unfold readEscapedString
  split
  · exact isSilent_unfinished (by decide) (List.forall_mem_nil _)
  · intro n hn
    dsimp only at hn
    split at hn
    · cases hn
    · cases List.mem_singleton.mp hn
      rfl

theorem isSilent_readParam : (readParam start cs).IsSilent := by
  have hjunk : ∀ (junk text : List Char),
      ∀ n ∈ if junk.isEmpty then [] else [Note.mk (.junkAfterParam (String.ofList text)) start],
        n.isSilent = true := by
    intro junk text n hn
    split at hn
    · cases hn
    · cases List.mem_singleton.mp hn
      rfl
  unfold readParam
  dsimp only
  split
  · exact hjunk _ _
  · exact List.forall_mem_cons.mpr ⟨rfl, hjunk _ _⟩

theorem isSilent_readDollar : (readDollar start cs).IsSilent := by
  unfold readDollar
  refine .ite (fun _ => isSilent_readParam) fun _ => ?_
  split
  · exact .of_nil rfl
  · dsimp only
    split
    · exact isSilent_unfinished (by decide) (List.forall_mem_nil _)
    · exact .of_nil rfl

theorem isSilent_readNumber : (readNumber start cs).IsSilent := by
  intro n hn
  dsimp only [readNumber] at hn
  split at hn
  · cases hn
  · cases List.mem_singleton.mp hn
    rfl

/-- Only plain strings draw warnings of escapes. -/
theorem isSilent_readToken (hc : c ≠ '\'') : (readToken d start c cs).IsSilent := by
  have hrule := readBy_readToken d start c cs
  generalize readToken d start c cs = r at hrule ⊢
  cases hrule with
  | string hquote => exact absurd hquote hc
  | quotedName => exact isSilent_readQuotedName
  | dollar => exact isSilent_readDollar
  | escapeString => exact isSilent_readEscapeString
  | plainString => exact isSilent_readPlainString
  | binary => exact isSilent_readBinary
  | hex => exact isSilent_readHex
  | escapedName => exact isSilent_readEscapedName
  | escapedString => exact isSilent_readEscapedString
  | word => exact isSilent_readWord
  | number => exact isSilent_readNumber
  | pair | operator | symbol => exact .of_nil rfl

theorem readToken_warning (hc : c ≠ '\'') :
    readToken (d.warning b) start c cs = readToken d start c cs := by
  unfold readToken
  dsimp only
  rw [if_neg hc, if_neg hc]
  rfl

/-- An escape string without the warning. -/
theorem silent_readEscapeString {intro : Nat} :
    (readEscapeString b start intro cs).silent = readEscapeString false start intro cs := by
  have hwarning : ∀ (p : Bool) (n : Nat),
      (if p then [Note.mk .plainEscape n] else []).filter Note.isSilent = [] := by
    intro p n
    cases p <;> rfl
  have hfaults := List.filter_eq_self.mpr
    (isSilent_faultNotes start (Escape.assemble (escapeBody 0 (cs.drop intro)).items).faults)
  unfold readEscapeString
  dsimp only
  split
  · simp only [Reading.silent, List.filter_append, hwarning, hfaults, Bool.false_and,
      Bool.false_eq_true, if_false]
  · simp only [Reading.silent, unfinished, List.filter_append, hwarning, hfaults, Bool.false_and,
      Bool.false_eq_true, if_false]
    rfl

/-- A plain string without the warning. -/
theorem silent_readString :
    (readString (d.warning b) start cs).silent = readString (d.warning false) start cs := by
  unfold readString
  dsimp only
  split
  · exact isSilent_readPlainString.silent_eq
  · exact silent_readEscapeString

theorem silent_readToken :
    (readToken (d.warning b) start c cs).silent = readToken (d.warning false) start c cs := by
  by_cases hc : c = '\''
  · subst hc
    exact silent_readString
  · rw [(isSilent_readToken hc).silent_eq]
    exact (readToken_warning hc).trans (readToken_warning hc).symm

/-! ### Lexemes without warnings -/

theorem silent_firstLexeme (offset : Nat) :
    firstLexeme (d.warning false) offset cs
      = ((firstLexeme (d.warning b) offset cs).1.silent, (firstLexeme (d.warning b) offset cs).2) := by
  unfold firstLexeme
  split
  · rfl
  · split
    · rfl
    · dsimp only
      rw [← silent_readToken (b := b)]
      generalize readToken (d.warning b) _ _ _ = r
      by_cases hr : r.kind = .eof
      · rw [if_pos hr, if_pos (show r.silent.kind = .eof from hr)]
        rfl
      · rw [if_neg hr, if_neg (show r.silent.kind ≠ .eof from hr)]
        rfl

theorem silent_rawLexemesFrom (count offset : Nat) :
    rawLexemesFrom (d.warning false) count offset cs
      = (rawLexemesFrom (d.warning b) count offset cs).map Lexeme.silent := by
  induction count generalizing offset cs with
  | zero => rfl
  | succ count ih =>
    unfold rawLexemesFrom
    rw [silent_firstLexeme (b := b)]
    dsimp only
    rw [ih]
    generalize firstLexeme (d.warning b) offset cs = r
    by_cases hr : r.1.kind = .eof
    · rw [if_pos hr, if_pos (show r.1.silent.kind = .eof from hr)]
      rfl
    · rw [if_neg hr, if_neg (show r.1.silent.kind ≠ .eof from hr)]
      rfl

theorem silent_newNotes (looked : Bool) (l : Lexeme) :
    l.silent.newNotes looked = (l.newNotes looked).filter Note.isSilent := by
  cases looked <;> rfl

theorem silent_decodedKind (start : Nat) (escape : Char) (k : TokenKind) :
    ∀ n ∈ (decodedKind d start escape k).2, n.isSilent = true := by
  intro n hn
  unfold decodedKind at hn
  split at hn
  · exact isSilent_faultNotes _ _ n hn
  · simp only [decodedName, List.mem_append] at hn
    rcases hn with (hn | hn) | hn
    · exact isSilent_faultNotes _ _ n hn
    · split at hn
      · cases List.mem_singleton.mp hn
        rfl
      · cases hn
    · exact isSilent_limitName _ n hn
  · cases hn

theorem silent_decoded (escape : Char) (notes : List Note) (l : Lexeme) :
    l.silent.decoded d escape (notes.filter Note.isSilent) = (l.decoded d escape notes).silent := by
  have hkind := List.filter_eq_self.mpr
    (silent_decodedKind (d := d) l.token.span.start escape l.kind)
  simp [Lexeme.decoded, Lexeme.silent, List.filter_append, hkind]

/-- What a clause says without warnings. -/
def EscapeClause.silent (c : EscapeClause) : EscapeClause :=
  { c with notes := c.notes.filter Note.isSilent }

theorem silent_escapeClause (ls : List Lexeme) :
    escapeClause (ls.map Lexeme.silent) = (escapeClause ls).silent := by
  fun_cases escapeClause ls with
  | case1 | case2 => rfl
  | case3 u operand rest hu notes s hs e he =>
    simp [escapeClause, hu, hs, he, EscapeClause.silent, notes]
  | case4 u operand rest hu notes start s hs he =>
    simp [escapeClause, hu, hs, he, EscapeClause.silent, notes, start, Note.isSilent]
  | case5 u operand rest hu notes start hs =>
    simp [escapeClause, hu, EscapeClause.silent, notes, start, Note.isSilent]
  | case6 u operand rest hu => simp [escapeClause, hu, EscapeClause.silent]

/-- Warnings of escapes are carried along. -/
theorem silent_resolve (looked : Bool) (ls : List Lexeme) :
    resolve d looked (ls.map Lexeme.silent) = (resolve d looked ls).map Lexeme.silent := by
  induction looked, ls using resolve_induction with
  | nil looked => rfl
  | cons looked l ls ih =>
    obtain ⟨key, hkey, hahead⟩ | hl | ⟨hkey, hl⟩ := lexeme_cases l
    · rw [resolve_keyword hkey hahead, List.map_cons,
        resolve_keyword (l := l.silent) hkey hahead, silent_newNotes, List.map_cons]
      rw [show resolve d true (ls.map Lexeme.silent) = _ from ih true 0]
      cases ls <;> simp [Lexeme.silent]
    · rw [resolve_escaped hl, List.map_cons, resolve_escaped (l := l.silent) hl,
        silent_escapeClause, silent_newNotes, List.map_cons, ← ih, ← silent_decoded,
        List.filter_append, ← List.map_drop]
      rfl
    · rw [resolve_plain hkey hl, List.map_cons, resolve_plain (l := l.silent) hkey hl,
        silent_newNotes, List.map_cons]
      rw [show resolve d false (ls.map Lexeme.silent) = _ from ih false 0]
      rfl

/-- Resolving depends on no setting but the length of names. -/
theorem resolve_congr {d d' : Dialect} (h : d.maxNameLength = d'.maxNameLength) (looked : Bool)
    (ls : List Lexeme) : resolve d looked ls = resolve d' looked ls := by
  have hkind : ∀ start escape k, decodedKind d start escape k = decodedKind d' start escape k := by
    intro start escape k
    cases k with
    | escapedName body => simp only [decodedKind, decodedName, limitName, h]
    | _ => rfl
  induction looked, ls using resolve_induction with
  | nil looked => rw [resolve, resolve]
  | cons looked l ls ih =>
    obtain ⟨key, hkey, hahead⟩ | hl | ⟨hkey, hl⟩ := lexeme_cases l
    · rw [resolve_keyword hkey hahead, resolve_keyword hkey hahead]
      rw [show resolve d true ls = resolve d' true ls from ih true 0]
    · rw [resolve_escaped hl, resolve_escaped hl, Lexeme.decoded, Lexeme.decoded, hkind, ih]
    · rw [resolve_plain hkey hl, resolve_plain hkey hl]
      rw [show resolve d false ls = resolve d' false ls from ih false 0]

/-- **Without warnings of escapes, a text has the same lexemes** but for these. -/
theorem lexemes_silent (d : Dialect) (b : Bool) (source : List Char) :
    lexemes (d.warning false) source = (lexemes (d.warning b) source).map Lexeme.silent := by
  calc lexemes (d.warning false) source
      = resolve (d.warning b) false (rawLexemes (d.warning false) source) :=
        resolve_congr (show (d.warning false).maxNameLength = (d.warning b).maxNameLength from rfl) _ _
    _ = resolve (d.warning b) false ((rawLexemes (d.warning b) source).map Lexeme.silent) := by
      rw [rawLexemes, silent_rawLexemesFrom (b := b), rawLexemes]
    _ = (lexemes (d.warning b) source).map Lexeme.silent := silent_resolve _ _

/-! ### Backslashes as ordinary characters -/

/-- Without backslashes, the body of an escape string ends where that of a plain string does, if
it ends at all, and holds the same characters. -/
theorem escapeBody_plain (h : '\\' ∉ cs) :
    match quoted '\'' cs with
    | some (body, n) => escapeBody 0 cs = ⟨body.map .char, n, true⟩
    | none => (escapeBody 0 cs).closed = false ∧
        ∃ body : List Char, (escapeBody 0 cs).items = body.map .char := by
  fun_induction quoted '\'' cs with
  | case1 => exact ⟨rfl, [], rfl⟩
  | case2 => rfl
  | case3 cs' ih =>
    -- a doubled quote is one character in both
    have ih := ih fun hmem => h (by simp [hmem])
    have hbody : escapeBody 0 ('\'' :: '\'' :: cs') = (escapeBody 0 cs').skip.cons (.char '\'') := rfl
    rw [hbody]
    cases hq : quoted '\'' cs' with
    | none =>
      rw [hq] at ih
      obtain ⟨hclosed, body, hitems⟩ := ih
      exact ⟨hclosed, '\'' :: body, by simp [EscapeBody.cons, EscapeBody.skip, hitems]⟩
    | some r =>
      rw [hq] at ih
      simp [EscapeBody.cons, EscapeBody.skip, ih]
  | case4 c' cs' hc' =>
    simp [escapeBody, hc']
  | case5 c cs' hc ih =>
    have ih := ih fun hmem => h (by simp [hmem])
    have hback : c ≠ '\\' := fun heq => h (by simp [heq])
    have hbody : escapeBody 0 (c :: cs') = (escapeBody 0 cs').cons (.char c) := by
      rw [escapeBody_zero, if_neg hc, if_neg hback]
    rw [hbody]
    cases hq : quoted '\'' cs' with
    | none =>
      rw [hq] at ih
      obtain ⟨hclosed, body, hitems⟩ := ih
      exact ⟨hclosed, c :: body, by simp [EscapeBody.cons, hitems]⟩
    | some r =>
      rw [hq] at ih
      simp [EscapeBody.cons, ih]

/-- A string without backslashes is read in the same way whether or not there may be escapes. -/
theorem readEscapeString_plain (h : '\\' ∉ cs) {intro : Nat} :
    readEscapeString b start intro cs = readPlainString start intro cs := by
  have hdrop : '\\' ∉ cs.drop intro := fun hmem => h (List.mem_of_mem_drop hmem)
  have htext : ((cs.take (intro + (escapeBody 0 (cs.drop intro)).taken)).drop intro).contains '\\'
      = false := by
    rw [List.contains_eq_mem, decide_eq_false_iff_not]
    exact fun hmem => h (List.mem_of_mem_take (List.mem_of_mem_drop hmem))
  have hbody := escapeBody_plain hdrop
  unfold readEscapeString readPlainString
  simp only [htext, Bool.and_false, Bool.false_eq_true, if_false, List.nil_append]
  cases hq : quoted '\'' (cs.drop intro) with
  | none =>
    rw [hq] at hbody
    obtain ⟨hclosed, body, hitems⟩ := hbody
    simp [hclosed, hitems, Escape.assemble_chars, faultNotes]
  | some r =>
    rw [hq] at hbody
    simp [hbody, Escape.assemble_chars, faultNotes]

/-- The same readings, unless the second one is a string with Unicode escapes. -/
def Reading.Same (r r' : Reading) : Prop :=
  (∀ s, r'.kind ≠ .escapedString s) → r = r'

theorem Reading.Same.ite {p : Prop} [Decidable p] {r r' s s' : Reading} (h : r.Same r')
    (h' : s.Same s') : (if p then r else s).Same (if p then r' else s') := by
  split
  · exact h
  · exact h'

theorem Reading.Same.refl (r : Reading) : r.Same r :=
  fun _ => rfl

theorem same_readString (h : '\\' ∉ cs) :
    (readString (d.standard b) start cs).Same (readString d start cs) := by
  have hplain : ∀ d : Dialect, readString d start cs = readPlainString start 1 cs := by
    intro d
    unfold readString
    split
    · rfl
    · exact readEscapeString_plain h
  rw [hplain, hplain]
  exact .refl _

/-- Only a string with Unicode escapes that has an end depends on what a backslash is. -/
theorem same_readEscapedString :
    (readEscapedString (d.standard b) start cs).Same (readEscapedString d start cs) := by
  unfold readEscapedString
  cases quoted '\'' (cs.drop 3) with
  | none => exact .refl _
  | some r => exact fun h => absurd rfl (h _)

theorem same_readToken (h : '\\' ∉ c :: cs) :
    (readToken (d.standard b) start c cs).Same (readToken d start c cs) := by
  unfold readToken
  dsimp only
  refine .ite (same_readString h) ?_
  repeat refine .ite (.refl _) ?_
  refine .ite same_readEscapedString ?_
  exact .refl _

/-! ### Lexemes of texts without backslashes -/

theorem firstLexeme_standard (h : '\\' ∉ cs) {offset : Nat}
    (hkind : ∀ s, (firstLexeme d offset cs).1.kind ≠ .escapedString s) :
    firstLexeme (d.standard b) offset cs = firstLexeme d offset cs := by
  unfold firstLexeme at hkind ⊢
  cases hgap : gap cs with
  | unclosed n => rfl
  | closed n =>
    rw [hgap] at hkind
    dsimp only at hkind ⊢
    cases hrest : cs.drop n with
    | nil => rfl
    | cons c rest =>
      have hback : '\\' ∉ c :: rest := fun hmem => h (List.mem_of_mem_drop (hrest ▸ hmem))
      rw [hrest] at hkind
      dsimp only at hkind ⊢
      rw [same_readToken hback]
      intro s hs
      rw [if_neg (by rw [hs]; nofun)] at hkind
      exact hkind s hs

theorem rawLexemesFrom_standard (h : '\\' ∉ cs) {count offset : Nat}
    (hkind : ∀ l ∈ rawLexemesFrom d count offset cs, ∀ s, l.kind ≠ .escapedString s) :
    rawLexemesFrom (d.standard b) count offset cs = rawLexemesFrom d count offset cs := by
  induction count generalizing offset cs with
  | zero => rfl
  | succ count ih =>
    unfold rawLexemesFrom at hkind ⊢
    dsimp only at hkind ⊢
    have hfirst : firstLexeme (d.standard b) offset cs = firstLexeme d offset cs := by
      refine firstLexeme_standard h (hkind _ ?_)
      split
      · exact List.mem_singleton_self _
      · exact List.mem_cons_self
    rw [hfirst]
    split
    · rfl
    · next heof =>
      rw [if_neg heof] at hkind
      rw [ih (fun hmem => h (List.mem_of_mem_drop hmem))
        fun l hl => hkind l (List.mem_cons_of_mem _ hl)]

/-- **A text without backslashes has the same lexemes whether or not these start escapes**, unless
it contains a string with Unicode escapes. -/
theorem lexemes_standard (d : Dialect) (b : Bool) {source : List Char} (h : '\\' ∉ source)
    (hkind : ∀ l ∈ rawLexemes d source, ∀ s, l.kind ≠ .escapedString s) :
    lexemes (d.standard b) source = lexemes d source := by
  rw [lexemes, lexemes, rawLexemes, rawLexemesFrom_standard h hkind, ← rawLexemes]
  exact resolve_congr (show (d.standard b).maxNameLength = d.maxNameLength from rfl) _ _

end SqlSyntax
