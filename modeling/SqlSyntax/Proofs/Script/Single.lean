import SqlSyntax.Proofs.Grammar.Parenthesized
import SqlSyntax.Proofs.Lexeme.Leaves
import SqlSyntax.Proofs.Script.Isolation
import SqlSyntax.Proofs.Script.Shape

/-!
# Texts of one statement

A text without semicolons is one statement.  If its tokens make a statement, this is the
statement of the text, and the tokens of a text of one statement make it.

## Main definitions

* `ParseResult.IsStatement` — a script is one statement, without errors.
* `ParseResult.ExceedsDepth` — a script is said to nest too deeply.

## Main results

* `IsPassage.parse_of_finds` — **a text whose tokens make a statement is this statement.**
* `IsPassage.run_of_statement` — the tokens of a text that is one statement make it.
* `exists_run_of_query` — the same of a query and the rule for queries.
-/

namespace SqlSyntax

open Grammar

variable {d : Dialect} {source : List Char} {n : Node}

namespace ParseResult

/-- The script is the statement `n`, without errors. -/
structure IsStatement (r : ParseResult) (n : Node) : Prop where
  clean : r.isClean = true
  statements : r.statements.map RawStatement.node = [n]

/-- Something in the script nests too deeply, as is said of it. -/
def ExceedsDepth (r : ParseResult) : Prop :=
  ∃ g ∈ r.diagnostics, g.message = "stack depth limit exceeded"

theorem isClean_iff (r : ParseResult) : r.isClean = true ↔ r.success = true ∧ r.errors = [] := by
  rw [isClean, Bool.and_eq_true, Bool.not_eq_true', Diagnostics.hasError, List.any_eq_false, errors,
    List.filter_eq_nil_iff]

end ParseResult

/-! ### One passage -/

namespace IsPassage

variable {run : List Lexeme} {stop : Lexeme}

/-- The value of a text of one statement is the value of a run of its tokens. -/
theorem result_of_finds (h : IsPassage d source run stop)
    (hfinds : wholeStatement.Finds (run.map Lexeme.kind) n []) :
    match ((Session.ofText d source).attemptWhole (passage d source run stop)).result with
    | .ok r => r.node = n
    | .error e => e.message = "stack depth limit exceeded" := by
  let s := Session.ofText d source
  let start : Cursor := { run := run.map Lexeme.kind, requested := max 1 (s.requested - 0) }
  have hrun : (wholeStatement.run .ofText start).Finds n [] := hfinds maxNesting start rfl
  have hresult : (s.attemptWhole (passage d source run stop)).result
      = (s.outcomeResult (passage d source run stop) (wholeStatement.run ⟨stop.kind, .eof⟩ start)).map
        (Session.rawStatement (passage d source run stop)) := rfl
  rw [hresult, h.stop_kind]
  change match (s.outcomeResult (passage d source run stop) (wholeStatement.run .ofText start)).map
      (Session.rawStatement (passage d source run stop)) with
    | .ok r => r.node = n
    | .error e => e.message = "stack depth limit exceeded"
  cases hcase : wholeStatement.run .ofText start with
  | ok n' c =>
    rw [hcase] at hrun
    exact hrun.1
  | error e c =>
    rw [hcase] at hrun
    show (e.resolve s.source (passage d source run stop)).message = _
    have hcause : (e.resolve s.source (passage d source run stop)).cause = .tooDeep := hrun
    rw [SyntaxError.message, hcause]
    rfl

/-- **A text whose tokens make a statement is this statement**, unless it nests too deeply. -/
theorem parse_of_finds (h : IsPassage d source run stop) (hne : run ≠ [])
    (hquiet : ∀ l ∈ lexemes d source, l.IsQuiet)
    (hfinds : wholeStatement.Finds (run.map Lexeme.kind) n []) :
    (parse d source).IsStatement n ∨ (parse d source).ExceedsDepth := by
  -- one statement is tried, and what comes of it is all that the script says besides the notes
  have hresult := h.result_of_finds hfinds
  have hattempts := h.attempts_eq hne
  generalize hattempt :
    (Session.ofText d source).attemptWhole (passage d source run stop) = a at hresult hattempts
  cases hcase : a.result with
  | ok r =>
    rw [hcase] at hresult
    have hvalue : a.value? = some r := by
      rw [Session.Attempt.value?, hcase]
      rfl
    have hvalues : Session.values d source = [some r] := by
      rw [Session.values, hattempts, List.map_singleton, hvalue]
    have hproblems : (Session.problems (lexemes d source)).countP (·.severity = .error) = 0 := by
      rw [List.countP_eq_zero]
      intro problem hproblem
      obtain ⟨l, hl, hmem⟩ := List.mem_flatMap.mp hproblem
      obtain ⟨note, hnote, rfl⟩ := List.mem_map.mp hmem
      rw [hquiet l hl note hnote]
      decide
    have hsuccess : (parse d source).success = true := by
      rw [Session.success_eq, hvalues]
      rfl
    have herrors : (parse d source).errors = [] := by
      rw [← List.length_eq_zero_iff, Session.length_errors, hproblems, hvalues]
      rfl
    refine .inl ⟨(ParseResult.isClean_iff _).mpr ⟨hsuccess, herrors⟩, ?_⟩
    rw [Session.statements_eq, hvalues]
    exact congrArg (fun n => [n]) hresult
  | error e =>
    rw [hcase] at hresult
    let s := Session.ofText d source
    let g : Diagnostic := ⟨.error, e.message, some (s.lines.locate e.span.start)⟩
    refine .inr ⟨g, ?_, hresult⟩
    have hevent : g ∈ (s.attempts.flatMap (Session.Attempt.allEvents s)).map Event.diagnostic := by
      rw [hattempts, List.flatMap_singleton, Session.Attempt.allEvents, hcase, List.map_append]
      exact List.mem_append_right _ List.mem_cons_self
    exact (perm_weave s.lines 0 s.lexemes _).symm.subset (List.mem_append_right _ hevent)

/-- The tokens of a text that is one statement make this statement. -/
theorem run_of_statement (h : IsPassage d source run stop)
    (hn : (parse d source).statements.map RawStatement.node = [n]) :
    ∃ c c', c.run = run.map Lexeme.kind ∧ c.Inside ∧ statement.run .ofText c = .ok n c' ∧
      c'.run = [] := by
  have hne : run ≠ [] := by
    rintro rfl
    rw [Session.statements_eq, Session.values, h.attempts_nil] at hn
    cases hn
  have hvalues : Session.values d source = [((Session.ofText d source).attemptWhole
      (passage d source run stop)).value?] := by
    rw [Session.values, h.attempts_eq hne, List.map_singleton]
  rw [Session.statements_eq, hvalues] at hn
  cases hcase : ((Session.ofText d source).attemptWhole (passage d source run stop)).result with
  | error e =>
    rw [Session.Attempt.value?, hcase] at hn
    cases hn
  | ok r =>
    rw [Session.Attempt.value?, hcase] at hn
    obtain rfl : r.node = n := (List.cons.inj hn).1
    obtain ⟨c, c', hc, hrun⟩ := Session.attemptWhole_node hcase
    change wholeStatement.run ⟨stop.kind, .eof⟩ c = .ok r.node c' at hrun
    rw [h.stop_kind] at hrun
    have hinside : c.Inside := by
      intro k hk
      rw [hc] at hk
      obtain ⟨l, hl, rfl⟩ := List.mem_map.mp hk
      exact h.inner l hl
    -- behind a statement that is whole, its rule has nothing left to read
    have hend := Session.run_eq_nil_of_wholeStatement hinside hrun
    obtain ⟨n', c₁, hstatement, hafter⟩ := Parser.ok_bind hrun
    have hsame : n' = r.node ∧ c₁ = c' := by
      simp only [Parser.kind, Parser.bind_eq, Parser.bind, Parser.runWith] at hafter
      split at hafter
      · cases hafter
        exact ⟨rfl, rfl⟩
      · cases hafter
    obtain ⟨rfl, rfl⟩ := hsame
    exact ⟨c, c₁, hc, hinside, hstatement, hend⟩

end IsPassage

/-- The tokens of a text that is a query make this query, by the rule for queries. -/
theorem exists_run_of_query {s : Select}
    (hsemicolon : ∀ t ∈ (TokenStream.ofText d source).tokenize.1, t.kind ≠ .semicolon)
    (hs : (parse d source).statements.map RawStatement.node = [.select s]) :
    ∃ run stop, IsPassage d source run stop ∧ ∃ depth c c', c.run = run.map Lexeme.kind ∧ c.Inside ∧
      queryWithClauses.runWith .ofText (Rule.run .ofText depth) c = .ok s c' ∧ c'.run = [] := by
  have hinner : ∀ l ∈ lexemes d source, l.kind ≠ .semicolon := by
    rw [tokenize_ofText] at hsemicolon
    exact fun l hl => hsemicolon l.token (List.mem_map_of_mem hl)
  obtain ⟨run, stop, hpassage⟩ := exists_isPassage hinner
  obtain ⟨c, c', hc, hinside, hstatement, hend⟩ := hpassage.run_of_statement hs
  obtain ⟨depth, hrun⟩ := statement_ok hstatement
  exact ⟨run, stop, hpassage, depth, c, c', hc, hinside, hrun, hend⟩

end SqlSyntax
