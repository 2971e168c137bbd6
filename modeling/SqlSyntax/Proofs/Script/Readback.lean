import SqlSyntax.Proofs.Expression.Selection
import SqlSyntax.Proofs.Grammar.PlainQuery
import SqlSyntax.Proofs.Lexeme.Leaves
import SqlSyntax.Proofs.Script.Accounting
import SqlSyntax.Proofs.Script.Shape

/-!
# Written statements are read back

A text that spells the tokens of a statement is a script of this one statement.  The
expressions that a script selects are plain if they are simple, and what they are written
as spells their tokens.  So the parentheses that are written suffice.

## Main definitions

* `ParseResult.IsOnly` — a script is one statement, and there is nothing to say about it.
* `ParseResult.IsTooDeep` — all that is wrong with a script is that it nests too deeply.

## Main results

* `lexemes_of_spells` — the lexemes of a text that spells tokens.
* `parse_of_reads` — **a text that spells a statement is read as that statement.**
* `isRead_of_isClean` — the tokens of a script without errors.
* `parse_text_of_isSimple` — **simple expressions that are selected are read back.**
* `parse_text_of_steps` — subscripts, fields and stars are, where no part of a name is meant.
-/

namespace SqlSyntax

open Grammar

variable {d : Dialect} {cs : List Char} {ks : List TokenKind} {n : Node}

/-! ### Lexemes -/

/-- A keyword means what it does before the keyword behind it, if there is one. -/
theorem before_firstOf {k : TokenKind} {key : Keyword} (hkey : k.keyword? = some key)
    (ls : List Lexeme) : k.before (firstOf (ls.map Lexeme.kind))
      = aheadKind key (ls.head?.bind (·.kind.keyword?)) := by
  have hk : k = .keyword key := by
    unfold TokenKind.keyword? at hkey
    split at hkey
    · exact congrArg _ (Option.some.inj hkey)
    · cases hkey
  subst hk
  cases ls <;> rfl

/-- A token that does not look ahead is settled. -/
theorem isSettled_of_keyword? {k : TokenKind}
    (h : ∀ key, k.keyword? = some key → key.needsLookahead = false) : k.isSettled = true := by
  cases k with
  | keyword w =>
    have hw := h w rfl
    refine decide_eq_true fun hmem => ?_
    simp only [List.mem_cons, List.not_mem_nil, or_false] at hmem
    rcases hmem with rfl | rfl | rfl | rfl <;> cases hw
  | _ => rfl

/-- The end of a text settles nothing. -/
theorem settle_append_eof (ks : List TokenKind) : settle (ks ++ [.eof]) = settle ks ++ [.eof] := by
  induction ks with
  | nil => rfl
  | cons k ks ih =>
    have hfirst : firstOf (ks ++ [.eof]) = firstOf ks := by cases ks <;> rfl
    rw [List.cons_append, settle_cons, settle_cons, hfirst, ih, List.cons_append]

/-- Resolving settles the keywords of lexemes without notes and escapes, and does no more. -/
theorem resolve_of_isInner {ls : List Lexeme} (looked : Bool) (hnotes : ∀ l ∈ ls, l.notes = [])
    (hescaped : ∀ l ∈ ls, isEscaped l.kind = false) :
    (resolve d looked ls).map Lexeme.kind = settle (ls.map Lexeme.kind) ∧
      ∀ l ∈ resolve d looked ls, l.notes = [] := by
  induction ls generalizing looked with
  | nil => exact ⟨rfl, nofun⟩
  | cons l ls ih =>
    rw [List.forall_mem_cons] at hnotes hescaped
    have hnew (looked : Bool) : l.newNotes looked = [] := by
      cases looked
      · exact hnotes.1
      · rfl
    have ih (looked : Bool) := ih looked hnotes.2 hescaped.2
    rcases lexeme_cases l with ⟨key, hkey, hahead⟩ | hl | ⟨hkey, hl⟩
    · have hnext : ls.head?.elim [] Lexeme.notes = [] := by
        cases ls with
        | nil => rfl
        | cons m ls => exact hnotes.2 m List.mem_cons_self
      rw [resolve_keyword hkey hahead, List.map_cons, List.map_cons, settle_cons, (ih true).1]
      refine ⟨?_, List.forall_mem_cons.mpr ⟨?_, (ih true).2⟩⟩
      · rw [before_firstOf hkey]
      · rw [hnew, hnext, List.append_nil]
    · rw [hescaped.1] at hl
      cases hl
    · rw [resolve_plain hkey hl, List.map_cons, List.map_cons, settle_cons, (ih false).1]
      refine ⟨?_, List.forall_mem_cons.mpr ⟨hnew looked, (ih false).2⟩⟩
      rw [before_eq (isSettled_of_keyword? hkey)]

/-- The lexemes of a text that spells tokens. -/
theorem lexemes_of_spells (h : Spells d cs ks) :
    ∃ run stop, lexemes d cs = run ++ [stop] ∧ run.map Lexeme.kind = settle ks ∧
      stop.kind = .eof ∧ ∀ l ∈ lexemes d cs, l.notes = [] := by
  have hread : (rawLexemes d cs).map (fun l => (l.kind, l.notes)) = (ks ++ [TokenKind.eof]).map (·, []) :=
    h.read 0
  have hkinds : (rawLexemes d cs).map Lexeme.kind = ks ++ [.eof] := by
    have hfst := congrArg (List.map Prod.fst) hread
    rw [List.map_map, List.map_map] at hfst
    exact hfst.trans (List.map_id _)
  have hraw : ∀ l ∈ rawLexemes d cs, l.notes = [] ∧ isEscaped l.kind = false := by
    intro l hl
    have hmem := List.mem_map_of_mem (f := fun l : Lexeme => (l.kind, l.notes)) hl
    rw [hread] at hmem
    obtain ⟨k, hk, heq⟩ := List.mem_map.mp hmem
    obtain ⟨rfl, hnotes⟩ := Prod.mk.inj heq
    refine ⟨hnotes.symm, ?_⟩
    rcases List.mem_append.mp hk with hk | hk
    · have hinner := h.inner _ hk
      rw [TokenKind.isInner, Bool.and_eq_true, Bool.not_eq_true', Bool.not_eq_true'] at hinner
      exact hinner.2
    · rw [List.mem_singleton.mp hk]
      rfl
  obtain ⟨hresolved, hnotes⟩ := resolve_of_isInner (d := d) false (fun l hl => (hraw l hl).1)
    fun l hl => (hraw l hl).2
  rw [hkinds, settle_append_eof] at hresolved
  obtain ⟨run, last, hlexemes, hrun, hlast⟩ := List.map_eq_append_iff.mp hresolved
  obtain ⟨stop, rfl, hstop⟩ := List.map_eq_singleton_iff.mp hlast
  exact ⟨run, stop, hlexemes, hrun, hstop, hnotes⟩

/-! ### Scripts of one statement -/

namespace ParseResult

/-- The script is the statement `n`, and there is nothing to say about it. -/
structure IsOnly (r : ParseResult) (n : Node) : Prop where
  success : r.success = true
  statements : r.statements.map RawStatement.node = [n]
  diagnostics : r.diagnostics = []

/-- There is no statement, and one error says that the nesting is too deep. -/
structure IsTooDeep (r : ParseResult) : Prop where
  success : r.success = false
  statements : r.statements = []
  diagnostics : ∃ place, r.diagnostics = [⟨.error, "stack depth limit exceeded", place⟩]

end ParseResult

theorem weave_of_quiet (ix : LineIndex) {ls : List Lexeme} (h : ∀ l ∈ ls, l.notes = []) (n : Nat)
    (es : List Event) : weave ix n ls es = es.map Event.diagnostic := by
  induction ls generalizing n es with
  | nil => rfl
  | cons l ls ih =>
    rw [List.forall_mem_cons] at h
    rw [weave, Lexeme.diagnostics, h.1, List.map_nil, List.append_nil, ih h.2, ← List.map_append,
      List.takeWhile_append_dropWhile]

/-- Only ends of statements end a statement when they are settled. -/
theorem endsStatement_settle (h : ∀ k ∈ ks, k.endsStatement = false) :
    ∀ k ∈ settle ks, k.endsStatement = false := by
  have hbefore {k : TokenKind} (hk : k.endsStatement = false) (next : TokenKind) :
      (k.before next).endsStatement = false := by
    unfold TokenKind.before
    split
    · unfold aheadKind
      split <;> rfl
    · exact hk
  induction ks with
  | nil => exact nofun
  | cons k ks ih =>
    rw [List.forall_mem_cons] at h
    exact List.forall_mem_cons.mpr ⟨hbefore h.1 _, ih h.2⟩

namespace Session

variable {s : Session} {p : Passage}

/-- What comes of a passage at the end of a text from which a statement is read. -/
theorem attemptWhole_of_reads (hstop : p.stop.kind = .eof) (hbeyond : p.beyond = .eof)
    (h : wholeStatement.Reads maxNesting p.kinds n []) :
    (s.attemptWhole p).events = [] ∧
      match (s.attemptWhole p).result with
      | .ok r => r.node = n
      | .error e => e.cause = .tooDeep := by
  let start : Cursor := { run := p.kinds, requested := max 1 (s.requested - p.place) }
  have hgives : (wholeStatement.run ⟨p.stop.kind, p.beyond⟩ start).Gives [] n [] := by
    rw [hstop, hbeyond]
    exact Parser.Reads.run (c := start) h
  have hevents : (s.attemptWhole p).events
      = (outcomePlace (wholeStatement.run ⟨p.stop.kind, p.beyond⟩ start)).warnings.reverse.map
        (s.warningEvent p) := rfl
  have hresult : (s.attemptWhole p).result
      = (s.outcomeResult p (wholeStatement.run ⟨p.stop.kind, p.beyond⟩ start)).map
        (rawStatement p) := rfl
  rw [hevents, hresult]
  cases hrun : wholeStatement.run ⟨p.stop.kind, p.beyond⟩ start with
  | ok n' c =>
    rw [hrun] at hgives
    obtain ⟨rfl, -, hwarnings⟩ := hgives
    refine ⟨?_, rfl⟩
    rw [outcomePlace, hwarnings]
    rfl
  | error q c =>
    rw [hrun] at hgives
    obtain ⟨hcause, hwarnings⟩ := hgives
    refine ⟨?_, hcause⟩
    rw [outcomePlace, hwarnings]
    rfl

end Session

/-- The tokens that a text spells are one passage of it. -/
theorem exists_isPassage_of_spells (h : Spells d cs ks) (hne : ks ≠ []) :
    ∃ run stop, IsPassage d cs run stop ∧ run ≠ [] ∧ run.map Lexeme.kind = settle ks ∧
      ∀ l ∈ lexemes d cs, l.notes = [] := by
  obtain ⟨run, stop, hlexemes, hrun, hstop, hnotes⟩ := lexemes_of_spells h
  have hinner : ∀ l ∈ run, l.kind.endsStatement = false := by
    intro l hl
    have hends : ∀ k ∈ ks, k.endsStatement = false := by
      intro k hk
      have hinner := h.inner k hk
      rw [TokenKind.isInner, Bool.and_eq_true, Bool.not_eq_true', Bool.not_eq_true'] at hinner
      exact hinner.1
    exact endsStatement_settle hends _ (hrun ▸ List.mem_map_of_mem hl)
  have hsome : run ≠ [] := by
    rintro rfl
    have hlength := congrArg List.length hrun
    rw [length_settle] at hlength
    exact hne (List.length_eq_zero_iff.mp hlength.symm)
  exact ⟨run, stop, ⟨hlexemes, hstop, hinner⟩, hsome, hrun, hnotes⟩

namespace IsPassage

variable {run : List Lexeme} {stop : Lexeme}

/-- A text of one statement without notes is that statement if the attempt at it gives no
warnings. -/
theorem isOnly (h : IsPassage d cs run stop) (hne : run ≠ [])
    (hnotes : ∀ l ∈ lexemes d cs, l.notes = [])
    (hevents : ((Session.ofText d cs).attemptWhole (passage d cs run stop)).events = [])
    {r : RawStatement}
    (hresult : ((Session.ofText d cs).attemptWhole (passage d cs run stop)).result = .ok r) :
    (parse d cs).IsOnly r.node := by
  let s := Session.ofText d cs
  let p : Passage := passage d cs run stop
  have hparse : parse d cs = s.resultOf [s.attemptWhole p] :=
    congrArg s.resultOf (h.attempts_eq hne)
  have hweave (es : List Event) : weave s.lines 0 s.lexemes es = es.map Event.diagnostic :=
    weave_of_quiet _ hnotes 0 es
  have hresult : (s.attemptWhole p).result = .ok r := hresult
  have hevents : (s.attemptWhole p).events = [] := hevents
  have hvalue : (s.attemptWhole p).value? = some r := by
    rw [Session.Attempt.value?, hresult]
    rfl
  have hall : Session.Attempt.allEvents s (s.attemptWhole p) = [] := by
    rw [Session.Attempt.allEvents, hresult, hevents]
  rw [hparse]
  refine ⟨?_, ?_, ?_⟩
  · simp [Session.resultOf, hvalue]
  · simp [Session.resultOf, hvalue]
  · show [] ++ weave s.lines 0 s.lexemes ([] ++ [s.attemptWhole p].flatMap _) = []
    rw [hweave, List.flatMap_singleton, hall]
    rfl

end IsPassage

/-- **A text that spells a statement is read as that statement**, unless it nests too
deeply. -/
theorem parse_of_reads (h : Spells d cs ks) (hne : ks ≠ [])
    (hreads : wholeStatement.Reads maxNesting (settle ks) n []) :
    (parse d cs).IsOnly n ∨ (parse d cs).IsTooDeep := by
  obtain ⟨run, stop, hpassage, hsome, hrun, hnotes⟩ := exists_isPassage_of_spells h hne
  let s := Session.ofText d cs
  let p : Passage := IsPassage.passage d cs run stop
  obtain ⟨hevents, hresult⟩ := Session.attemptWhole_of_reads (s := s) (p := p) hpassage.stop_kind rfl
    (show wholeStatement.Reads maxNesting (run.map Lexeme.kind) n [] from hrun ▸ hreads)
  cases hcase : (s.attemptWhole p).result with
  | ok r =>
    rw [hcase] at hresult
    have hnode : r.node = n := hresult
    exact .inl (hnode ▸ hpassage.isOnly hsome hnotes hevents hcase)
  | error e =>
    rw [hcase] at hresult
    have hparse : parse d cs = s.resultOf [s.attemptWhole p] :=
      congrArg s.resultOf (hpassage.attempts_eq hsome)
    have hweave (es : List Event) : weave s.lines 0 s.lexemes es = es.map Event.diagnostic :=
      weave_of_quiet _ hnotes 0 es
    have hvalue : (s.attemptWhole p).value? = none := by
      rw [Session.Attempt.value?, hcase]
      rfl
    have hmessage : e.message = "stack depth limit exceeded" := by
      rw [SyntaxError.message, hresult]
      rfl
    have hall : (Session.Attempt.allEvents s (s.attemptWhole p)).map Event.diagnostic
        = [⟨.error, "stack depth limit exceeded", some (s.lines.locate e.span.start)⟩] := by
      rw [Session.Attempt.allEvents, hcase, hevents, ← hmessage]
      rfl
    rw [hparse]
    refine .inr ⟨?_, ?_, some (s.lines.locate e.span.start), ?_⟩
    · simp [Session.resultOf, hvalue]
    · simp [Session.resultOf, hvalue]
    · show [] ++ weave s.lines 0 s.lexemes ([] ++ [s.attemptWhole p].flatMap _) = _
      rw [hweave, List.flatMap_singleton, List.nil_append, List.nil_append, hall]

/-! ### What is selected -/

/-- Output columns are read back from what they are written as. -/
theorem parse_text_of_isColumn {es : List Node} (hne : es ≠ []) (h : ∀ e ∈ es, e.IsColumn) :
    let r := parse .postgres (Node.select (Select.ofColumns es)).text.toList
    r.IsOnly (.select (Select.ofColumns es)) ∨ r.IsTooDeep := by
  have hspells := written_columns hne h [] [] partsOff_nil (spells_nil _)
  rw [List.append_nil, List.append_nil, ← toList_join] at hspells
  refine parse_of_reads hspells ?_ (reads_columns hne h)
  rw [pieces_columns hne]
  exact List.cons_ne_nil _ _

/-- A text names the schema of the system. -/
def NamesSystem (source : List Char) : Prop :=
  ∃ l ∈ lexemes .postgres source, l.kind = .name systemSchema

/-- The lexemes of a script without errors have no notes on errors. -/
theorem isQuiet_of_isClean {source : List Char} (h : (parse .postgres source).isClean = true) :
    ∀ l ∈ lexemes .postgres source, l.IsQuiet := by
  have herrors : (parse .postgres source).errors = [] := by
    rw [ParseResult.isClean, Bool.and_eq_true, Bool.not_eq_true', Diagnostics.hasError,
      List.any_eq_false] at h
    exact List.filter_eq_nil_iff.mpr h.2
  have hperm := Session.perm_errors .postgres source
  rw [herrors, List.nil_perm, List.append_eq_nil_iff, tokenize_ofText, List.filter_eq_nil_iff] at hperm
  intro l hl n hn
  have hmem : n.diagnostic (LineIndex.ofText source) ∈
      (lexemes .postgres source).flatMap (Lexeme.diagnostics (LineIndex.ofText source)) :=
    List.mem_flatMap.mpr ⟨l, hl, List.mem_map_of_mem hn⟩
  have hnote := hperm.1 _ hmem
  cases hseverity : n.problem.severity with
  | warning => rfl
  | error => exact absurd (decide_eq_true hseverity) hnote

/-- The tokens of a script without errors are as a text can contain them. -/
theorem isRead_of_isClean {source : List Char} (h : (parse .postgres source).isClean = true) :
    ∀ l ∈ lexemes .postgres source, (plainly (NamesSystem source)).token l.kind :=
  fun l hl => ⟨isRead_lexemes (isQuiet_of_isClean h) l hl, fun heq => ⟨l, hl, heq⟩⟩

/-- **Simple expressions that a script selects are read back** from what the statement is
written as, unless they nest too deeply. -/
theorem parse_text_of_isSimple {source : List Char} {es : List Node}
    (hclean : (parse .postgres source).isClean = true) (hne : es ≠ [])
    (hmem : .select (Select.ofColumns es)
      ∈ (parse .postgres source).statements.map RawStatement.node)
    (hsimple : ∀ e ∈ es, e.All (Node.IsSimple (NamesSystem source))) :
    let r := parse .postgres (Node.select (Select.ofColumns es)).text.toList
    r.IsOnly (.select (Select.ofColumns es)) ∨ r.IsTooDeep := by
  refine parse_text_of_isColumn hne fun e he => ?_
  obtain ⟨r, hr, hnode⟩ := List.mem_map.mp hmem
  have hplain : r.node.QueryIf (NamesSystem source) :=
    Session.forall_statements (s := Session.ofText .postgres source) body_plain
      (wholeStatement_yields statement_plain) (fits_of_mem_passages (isRead_of_isClean hclean) ⟨trivial, nofun⟩) r hr
  have htarget : (⟨none, some e⟩ : Target) ∈ (Select.ofColumns es).targets :=
    List.mem_map_of_mem he
  exact (hplain _ hnode _ htarget e rfl).imp_right fun h => h (hsimple e he)

/-- **Steps into a value that a script selects are read back**, unless the statement nests too
deeply.  The value may be any simple one, but no field and no star follows a column. -/
theorem parse_text_of_steps {source : List Char} {arg : Node} {steps : List Step}
    (hclean : (parse .postgres source).isClean = true)
    (hmem : .select (Select.ofColumns [.indirection arg steps])
      ∈ (parse .postgres source).statements.map RawStatement.node)
    (harg : arg.All (Node.IsSimple (NamesSystem source))) (hapart : arg.StepsApart steps)
    (hbounds : ∀ s ∈ steps, ∀ n ∈ s.bounds, n.IsIndex) :
    let r := parse .postgres
      (Node.select (Select.ofColumns [.indirection arg steps])).text.toList
    r.IsOnly (.select (Select.ofColumns [.indirection arg steps])) ∨ r.IsTooDeep :=
  parse_text_of_isSimple hclean (List.cons_ne_nil _ _) hmem
    (List.forall_mem_singleton.mpr (Node.all_isSimple_indirection harg hapart hbounds))

end SqlSyntax
