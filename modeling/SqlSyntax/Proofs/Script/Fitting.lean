import SqlSyntax.Proofs.Grammar.FittingQuery
import SqlSyntax.Proofs.Query.Readback
import SqlSyntax.Proofs.Script.Readback

/-!
# Scripts of queries that fit

A query of a script fits in the levels that a statement has.  A text that spells a statement is
that statement for certain, if reading it takes no more levels than there are.

## Main results

* `parse_fits` — **the queries of a script fit in the levels of a statement.**
* `parse_of_within` — a text that spells a statement is read as that statement.
* `parse_text_of_readsBack` — so is the text of a query that is read back within the levels.
-/

namespace SqlSyntax

open Grammar

variable {d : Dialect} {source cs : List Char} {ks : List TokenKind} {n : Node} {s : Select}

/-! ### From a script -/

/-- **The queries of a script fit in the levels of a statement**, and have their shape. -/
theorem parse_fits (hclean : (parse .postgres source).isClean = true)
    (hs : .select s ∈ (parse .postgres source).statements.map RawStatement.node) :
    s.Fits maxNesting ∧ (s.ctes = none → s.Fits (maxNesting - 1)) ∧ (Node.select s).Sound := by
  obtain ⟨r, hr, hnode⟩ := List.mem_map.mp hs
  obtain ⟨p, hp, hresult⟩ := Session.exists_passage_of_mem_statements hr
  obtain ⟨c, c', hc, hrun⟩ := Session.attemptWhole_node hresult
  have htoken : ∀ l ∈ lexemes .postgres source, (fitting maxNesting).token l.kind :=
    fun l hl => ⟨isRead_lexemes (isQuiet_of_isClean hclean) l hl, fun _ => trivial⟩
  have hfin : (fitting maxNesting).token (Session.ofText .postgres source).fin.kind :=
    ⟨trivial, fun _ => trivial⟩
  have hfits := fits_of_mem_passages htoken hfin p hp
  have hends := stop_of_mem_passages rfl p hp
  have hstop : p.stop.kind ≠ .keyword .INTERSECT := by
    intro heq
    rw [heq] at hends
    cases hends
  have h := rulesFit_run (b := ⟨p.stop.kind, p.beyond⟩) hstop maxNesting
  have hfits : Parser.Fits (fitting maxNesting) ⟨p.stop.kind, p.beyond⟩ c :=
    ⟨hc ▸ hfits.run, hfits.stop, hfits.beyond⟩
  rw [hnode] at hrun
  obtain ⟨n', c₁, hstatement, hafter⟩ := Parser.ok_bind hrun
  obtain ⟨k, c₂, -, hafter⟩ := Parser.ok_bind hafter
  have hsame : n' = .select s := by
    split at hafter
    · exact (Outcome.ok.inj hafter).1
    · cases hafter
  subst hsame
  obtain ⟨hwhole, hone⟩ := run_statement_fits h hfits hstatement
  exact ⟨hwhole, hone, hnode ▸ parse_shaped .postgres source r hr⟩

/-! ### From a text that spells a statement -/

namespace Session

/-- The attempt at a passage at the end of a text gives the statement that is read within the
levels that there are. -/
theorem attemptWhole_of_within {s : Session} {p : Passage} (hstop : p.stop.kind = .eof)
    (hbeyond : p.beyond = .eof)
    (h : wholeStatement.ReadsWith (Rule.Within maxNesting) p.kinds n []) :
    (s.attemptWhole p).events = [] ∧ ∃ r, (s.attemptWhole p).result = .ok r ∧ r.node = n := by
  let start : Cursor := { run := p.kinds, requested := max 1 (s.requested - p.place) }
  obtain ⟨c, hok, -, hwarnings⟩ : (wholeStatement.run .ofText start).Is [] n [] :=
    Parser.ReadsWith.run_within (c := start) h
  have hboundary : (⟨p.stop.kind, p.beyond⟩ : Boundary) = .ofText := by
    rw [hstop, hbeyond]
    rfl
  have hevents : (s.attemptWhole p).events
      = (outcomePlace (wholeStatement.run ⟨p.stop.kind, p.beyond⟩ start)).warnings.reverse.map
        (s.warningEvent p) := rfl
  have hresult : (s.attemptWhole p).result
      = (s.outcomeResult p (wholeStatement.run ⟨p.stop.kind, p.beyond⟩ start)).map
        (rawStatement p) := rfl
  rw [hboundary, hok] at hevents hresult
  rw [outcomePlace, hwarnings] at hevents
  exact ⟨hevents, rawStatement p n, hresult, rfl⟩

end Session

/-- No statement is read from nothing. -/
theorem Grammar.ne_nil_of_reads {R : (r : Rule) → List TokenKind → r.Result → List TokenKind → Prop}
    (h : wholeStatement.ReadsWith R (settle ks) n []) : ks ≠ [] := by
  rintro rfl
  simp [wholeStatement, statement, otherStatement, change?, firstOf, TokenKind.keyword?] at h
  exact (h 0).elim

/-- **A text that spells a statement is read as that statement**, if the reading takes no more
levels than there are. -/
theorem parse_of_within (h : Spells d cs ks)
    (hreads : wholeStatement.ReadsWith (Rule.Within maxNesting) (settle ks) n []) :
    (parse d cs).IsOnly n := by
  have hne : ks ≠ [] := ne_nil_of_reads hreads
  obtain ⟨run, stop, hpassage, hsome, hrun, hnotes⟩ := exists_isPassage_of_spells h hne
  let p : Passage := IsPassage.passage d cs run stop
  obtain ⟨hevents, r, hresult, hnode⟩ := Session.attemptWhole_of_within (s := Session.ofText d cs)
    (p := p) hpassage.stop_kind rfl
    (show wholeStatement.ReadsWith _ (run.map Lexeme.kind) n [] from hrun ▸ hreads)
  exact hnode ▸ hpassage.isOnly hsome hnotes hevents hresult

/-- The text of a query that is read back within the levels of a statement is that query. -/
theorem parse_text_of_readsBack (hwritten : Written s.pieces) (h : s.ReadsBack maxNesting)
    (hone : s.ctes = none → s.ReadsBack (maxNesting - 1)) :
    (parse .postgres (Node.select s).text.toList).IsOnly (.select s) := by
  have hspells := hwritten [] [] partsOff_nil (spells_nil _)
  rw [List.append_nil, List.append_nil, ← toList_join] at hspells
  have hreads := reads_queryStatement h hone
  rw [Select.kinds] at hreads
  exact parse_of_within hspells hreads

end SqlSyntax
