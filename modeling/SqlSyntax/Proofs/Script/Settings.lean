import SqlSyntax.Proofs.Lexeme.Locality
import SqlSyntax.Proofs.Lexeme.Settings
import SqlSyntax.Proofs.Script.Diagnostics

/-!
# The settings of a dialect and the statements of a script

Warnings of escapes stay warnings: a script has the same statements without them, and no
other diagnostics.  What a backslash means has no say in a script without backslashes.

## Main definitions

* `Diagnostic.isEscapeWarning` — the warning of an escape in a plain string.

## Main results

* `parse_warning` — **without warnings of escapes, all else is as it was.**
* `parse_settings` — **the settings of a dialect change nothing beyond their purpose.**
-/

namespace SqlSyntax

variable {d : Dialect} {b : Bool} {source : List Char}

/-! ### Warnings of escapes -/

/-- The warning of an escape in a plain string. -/
def Diagnostic.isEscapeWarning (g : Diagnostic) : Bool :=
  g.isWarning && g.message == LexicalProblem.plainEscape.message

theorem isEscapeWarning_of_head {g : Diagnostic} {c : Char}
    (hmessage : g.message.toList.head? = some c) (hc : c ≠ 'n') : g.isEscapeWarning = false := by
  have hne : g.message ≠ LexicalProblem.plainEscape.message := by
    intro heq
    rw [heq] at hmessage
    have hhead : LexicalProblem.plainEscape.message.toList.head? = some 'n' := by decide +kernel
    exact hc (Option.some.inj (hmessage.symm.trans hhead))
  rw [Diagnostic.isEscapeWarning, beq_eq_false_iff_ne.mpr hne, Bool.and_false]

/-- Of the notes, those on escapes in plain strings give such warnings. -/
theorem isEscapeWarning_note (ix : LineIndex) (n : Note) :
    (n.diagnostic ix).isEscapeWarning = !n.isSilent := by
  cases hproblem : n.problem with
  | nameCut whole kept =>
    have hmessage : (n.diagnostic ix).message = "identifier \"" ++ whole
        ++ "\" will be truncated to \"" ++ kept ++ "\"" := by
      rw [Note.diagnostic, hproblem]
      rfl
    have hsilent : n.isSilent = true := by rw [Note.isSilent, hproblem]; rfl
    rw [hsilent]
    refine isEscapeWarning_of_head ?_ (by decide : 'i' ≠ 'n')
    rw [hmessage]
    simp only [String.toList_append, String.reduceToList]
    rfl
  | plainEscape =>
    rw [Diagnostic.isEscapeWarning, Note.diagnostic, Note.isSilent, hproblem, beq_self_eq_true]
    rfl
  | _ =>
    rw [Diagnostic.isEscapeWarning, Note.diagnostic, Note.isSilent, hproblem]
    exact Bool.false_and _

theorem diagnostics_silent (ix : LineIndex) (l : Lexeme) :
    l.silent.diagnostics ix = (l.diagnostics ix).filter fun g => !g.isEscapeWarning := by
  rw [Lexeme.diagnostics, Lexeme.diagnostics, List.filter_map]
  congr 1
  refine List.filter_congr fun n _ => ?_
  simp [isEscapeWarning_note]

theorem flatMap_diagnostics_silent (ix : LineIndex) (ls : List Lexeme) :
    (ls.map Lexeme.silent).flatMap (Lexeme.diagnostics ix)
      = (ls.flatMap (Lexeme.diagnostics ix)).filter fun g => !g.isEscapeWarning := by
  induction ls with
  | nil => rfl
  | cons l ls ih =>
    rw [List.map_cons, List.flatMap_cons, List.flatMap_cons, List.filter_append, ih,
      diagnostics_silent]

/-- Events stay in their places when warnings are left out between them. -/
theorem weave_silent (ix : LineIndex) (n : Nat) (ls : List Lexeme) (es : List Event)
    (hes : ∀ e ∈ es, e.diagnostic.isEscapeWarning = false) :
    weave ix n (ls.map Lexeme.silent) es
      = (weave ix n ls es).filter fun g => !g.isEscapeWarning := by
  have hevents : ∀ es : List Event, (∀ e ∈ es, e.diagnostic.isEscapeWarning = false) →
      (es.map Event.diagnostic).filter (fun g => !g.isEscapeWarning) = es.map Event.diagnostic := by
    intro es hes
    rw [List.filter_eq_self]
    intro g hg
    obtain ⟨e, he, rfl⟩ := List.mem_map.mp hg
    rw [hes e he]
    rfl
  induction ls generalizing n es with
  | nil => exact (hevents es hes).symm
  | cons l ls ih =>
    rw [List.map_cons, weave, weave, List.filter_append, List.filter_append,
      hevents _ fun e he => hes e ((List.takeWhile_sublist _).subset he), diagnostics_silent,
      ih _ _ fun e he => hes e ((List.dropWhile_sublist _).subset he)]

/-! ### Passages -/

/-- A passage without warnings of escapes. -/
def Passage.silent (p : Passage) : Passage :=
  { p with run := p.run.map Lexeme.silent, stop := p.stop.silent }

theorem silent_ofRest {fin : Lexeme} (hfin : fin.silent = fin) (place : Nat) (ls : List Lexeme) :
    Passage.ofRest fin place (ls.map Lexeme.silent) = (Passage.ofRest fin place ls).silent := by
  have hhead : ∀ ls : List Lexeme, (ls.map Lexeme.silent).headD fin = (ls.headD fin).silent := by
    intro ls
    cases ls with
    | nil => exact hfin.symm
    | cons l ls => rfl
  simp only [Passage.ofRest, Passage.silent, List.takeWhile_map, List.dropWhile_map, hhead,
    ← List.map_tail, Lexeme.silent_kind, Function.comp_def]

theorem silent_passagesFrom {fin : Lexeme} (hfin : fin.silent = fin) (place : Nat) (fresh : Bool)
    (ls : List Lexeme) :
    passagesFrom fin place fresh (ls.map Lexeme.silent)
      = (passagesFrom fin place fresh ls).map Passage.silent := by
  induction ls generalizing place fresh with
  | nil => rfl
  | cons l ls ih =>
    rw [List.map_cons, passagesFrom, passagesFrom, Lexeme.silent_kind, ih, ih, ← List.map_cons,
      silent_ofRest hfin]
    split
    · rfl
    · split <;> rfl

theorem tokenAt_silent (p : Passage) (n : Nat) : p.silent.tokenAt n = p.tokenAt n := by
  rw [Passage.tokenAt, Passage.tokenAt, Passage.silent, List.getD_eq_getElem?_getD,
    List.getD_eq_getElem?_getD, List.getElem?_map]
  cases p.run[n]? <;> rfl

theorem lastToken_silent (p : Passage) : p.silent.lastToken = p.lastToken := by
  rw [Passage.lastToken, Passage.lastToken, Passage.silent, List.getLastD_eq_getLast?,
    List.getLastD_eq_getLast?, List.getLast?_map]
  cases p.run.getLast? <;> rfl

theorem kinds_silent (p : Passage) : p.silent.kinds = p.kinds := by
  rw [Passage.kinds, Passage.silent, List.map_map]
  rfl

namespace Session

/-- A session without warnings of escapes. -/
def silent (s : Session) : Session :=
  { s with lexemes := s.lexemes.map Lexeme.silent }

theorem outcomeResult_silent {α : Type} (s : Session) (p : Passage) (o : Outcome α) :
    s.silent.outcomeResult p.silent o = s.outcomeResult p o := by
  cases o with
  | ok => rfl
  | error q c =>
    simp only [outcomeResult, Problem.resolve, tokenAt_silent]
    rfl

theorem warningEvent_silent (s : Session) (p : Passage) :
    s.silent.warningEvent p.silent = s.warningEvent p := by
  funext w
  simp only [warningEvent, tokenAt_silent]
  rfl

/-- What comes of a parser does not depend on warnings of escapes. -/
theorem attempt_silent {α : Type} (s : Session) (q : Parser α) (p : Passage) :
    s.silent.attempt q p.silent = s.attempt q p := by
  simp only [attempt, kinds_silent, outcomeResult_silent, warningEvent_silent]
  rfl

theorem attemptWhole_silent (s : Session) (p : Passage) :
    s.silent.attemptWhole p.silent = s.attemptWhole p := by
  have hstatement : rawStatement p.silent = rawStatement p := by
    funext n
    simp only [rawStatement, Passage.firstToken, tokenAt_silent, lastToken_silent]
  simp only [attemptWhole, attempt_silent, hstatement]

theorem attempts_silent {s : Session} (hfin : s.fin.silent = s.fin) :
    s.silent.attempts = s.attempts := by
  have hpassages : passages s.fin s.place ((s.lexemes.map Lexeme.silent).drop s.place)
      = (passages s.fin s.place (s.lexemes.drop s.place)).map Passage.silent := by
    rw [← List.map_drop]
    exact silent_passagesFrom hfin _ _ _
  show (passages s.fin s.place ((s.lexemes.map Lexeme.silent).drop s.place)).map _ = _
  rw [hpassages, List.map_map]
  exact List.map_congr_left fun p _ => attemptWhole_silent s p

/-- What the grammar finds is no warning of an escape. -/
theorem isEscapeWarning_allEvents (s : Session) (p : Passage) :
    ∀ e ∈ Attempt.allEvents s (s.attemptWhole p), e.diagnostic.isEscapeWarning = false := by
  have hwarning : ∀ e ∈ (s.attemptWhole p).events, e.diagnostic.isEscapeWarning = false := by
    intro e he
    obtain ⟨w, -, rfl⟩ := List.mem_map.mp he
    refine isEscapeWarning_of_head ?_ (by decide : 'k' ≠ 'n')
    show w.message.toList.head? = some 'k'
    simp only [LabelWarning.message, String.toList_append, String.reduceToList]
    rfl
  intro e he
  unfold Attempt.allEvents at he
  split at he
  · exact hwarning e he
  · obtain he | he := List.mem_append.mp he
    · exact hwarning e he
    · cases List.mem_singleton.mp he
      exact Bool.false_and _

end Session

open Session in
/-- **Without warnings of escapes, a script has the same statements**, and all other
diagnostics. -/
theorem parse_warning (d : Dialect) (b : Bool) (source : List Char) :
    (parse (d.warning false) source).success = (parse (d.warning b) source).success ∧
      (parse (d.warning false) source).statements = (parse (d.warning b) source).statements ∧
      (parse (d.warning false) source).diagnostics
        = (parse (d.warning b) source).diagnostics.filter fun g => !g.isEscapeWarning := by
  have hsession : ofText (d.warning false) source = (ofText (d.warning b) source).silent := by
    simp only [ofText, TokenStream.ofText, lexemes_silent d b]
    rfl
  have hattempts : (ofText (d.warning false) source).attempts
      = (ofText (d.warning b) source).attempts := by
    rw [hsession]
    exact attempts_silent rfl
  -- only notes of lexemes are warnings of escapes, and the weave keeps all other events
  have hevents : ∀ e ∈ (ofText (d.warning b) source).attempts.flatMap
      (Attempt.allEvents (ofText (d.warning b) source)), e.diagnostic.isEscapeWarning = false := by
    intro e he
    obtain ⟨a, ha, he⟩ := List.mem_flatMap.mp he
    obtain ⟨p, -, rfl⟩ := List.mem_map.mp ha
    exact isEscapeWarning_allEvents _ _ e he
  refine ⟨congrArg (fun as => as.all fun a => a.value?.isSome) hattempts,
    congrArg (List.filterMap Attempt.value?) hattempts, ?_⟩
  show weave (LineIndex.ofText source) 0 (lexemes (d.warning false) source)
    ((ofText (d.warning false) source).attempts.flatMap
      (Attempt.allEvents (ofText (d.warning b) source))) = _
  rw [hattempts, lexemes_silent d b]
  exact weave_silent _ _ _ _ hevents

/-- Without warnings of escapes, a text has the same tokens and all other diagnostics. -/
theorem tokenize_warning (d : Dialect) (b : Bool) (source : List Char) :
    (TokenStream.ofText (d.warning false) source).tokenize.1
        = (TokenStream.ofText (d.warning b) source).tokenize.1 ∧
      (TokenStream.ofText (d.warning false) source).tokenize.2
        = (TokenStream.ofText (d.warning b) source).tokenize.2.filter
            fun g => !g.isEscapeWarning := by
  rw [tokenize_ofText, tokenize_ofText, lexemes_silent d b]
  refine ⟨?_, flatMap_diagnostics_silent _ _⟩
  simp only [tokensOf, List.map_map]
  rfl

/-! ### Backslashes as ordinary characters -/

/-- A script without backslashes is read in the same way whether or not these start escapes, unless
it contains a string with Unicode escapes. -/
theorem parse_standard (d : Dialect) (b : Bool) {source : List Char} (h : '\\' ∉ source)
    (hkind : ∀ l ∈ rawLexemes d source, ∀ s, l.kind ≠ .escapedString s) :
    parse (d.standard b) source = parse d source := by
  have hsession : Session.ofText (d.standard b) source = Session.ofText d source := by
    simp only [Session.ofText, TokenStream.ofText, lexemes_standard d b h hkind]
  rw [parse, parse, hsession]

/-- **The settings of a dialect change nothing beyond their purpose.**  Whether escapes in plain
strings are warned of changes neither the tokens of a text nor its statements, and no other
diagnostics; whether a backslash is an ordinary character changes nothing at all in a text
without backslashes, if there is no string with Unicode escapes among its tokens. -/
theorem parse_settings (d : Dialect) (source : List Char) :
    ((TokenStream.ofText (d.warning false) source).tokenize.1
        = (TokenStream.ofText (d.warning true) source).tokenize.1 ∧
      (TokenStream.ofText (d.warning false) source).tokenize.2
        = (TokenStream.ofText (d.warning true) source).tokenize.2.filter
            (fun g => !g.isEscapeWarning) ∧
      (parse (d.warning false) source).success = (parse (d.warning true) source).success ∧
      (parse (d.warning false) source).statements = (parse (d.warning true) source).statements ∧
      (parse (d.warning false) source).diagnostics
        = (parse (d.warning true) source).diagnostics.filter fun g => !g.isEscapeWarning) ∧
    ('\\' ∉ source →
      (∀ t ∈ (TokenStream.ofRaw d source).tokenize.1, ∀ s, t.kind ≠ .escapedString s) →
      parse (d.standard true) source = parse (d.standard false) source) := by
  obtain ⟨htokens, hnotes⟩ := tokenize_warning d true source
  refine ⟨⟨htokens, hnotes, parse_warning d true source⟩, fun hback hkind => ?_⟩
  -- the tokens of the raw stream are the lexemes before escapes are resolved
  have hkind : ∀ l ∈ rawLexemes d source, ∀ s, l.kind ≠ .escapedString s := by
    intro l hl
    refine hkind l.token ?_
    rw [TokenStream.tokenize_ofRaw]
    exact List.mem_map_of_mem hl
  rw [parse_standard d true hback hkind, parse_standard d false hback hkind]

/-- A string with a quote in it, and a name with a Unicode escape character. -/
theorem parse_settings_quotes :
    let source := "SELECT 'it''s', U&\"a\" FROM t; SELECT 'x".toList
    '\\' ∉ source ∧
      (∀ t ∈ (TokenStream.ofRaw .postgres source).tokenize.1, ∀ s, t.kind ≠ .escapedString s) ∧
      parse (Dialect.postgres.standard true) source
        = parse (Dialect.postgres.standard false) source := by
  intro source
  have hback : '\\' ∉ source := by decide +kernel
  have hkinds : (TokenStream.ofRaw .postgres source).tokenize.1.map Token.kind
      = [.keyword .SELECT, .string "it's", .comma, .escapedName "a", .keyword .FROM, .name "t",
          .semicolon, .keyword .SELECT, .eof] := by
    decide +kernel
  have hkind : ∀ t ∈ (TokenStream.ofRaw .postgres source).tokenize.1,
      ∀ s, t.kind ≠ .escapedString s := by
    intro t ht s hs
    have hmem := List.mem_map_of_mem (f := Token.kind) ht
    rw [hkinds, hs] at hmem
    simp at hmem
  exact ⟨hback, hkind, (parse_settings .postgres source).2 hback hkind⟩

end SqlSyntax
