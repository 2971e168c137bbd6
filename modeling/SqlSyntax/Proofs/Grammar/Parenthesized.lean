import SqlSyntax.Proofs.Grammar.EnclosableQuery
import SqlSyntax.Proofs.Grammar.PlainQuery

/-!
# Queries in parentheses

A text that is a query is the same query in parentheses, wherever these stand: in an
expression, among the items of `FROM`, or where only a query is expected.  The first two guess
what the parentheses hold from the tokens behind the inner ones.  A query that these have found
already is continued as it is where it stands alone.

## Main definitions

* `Guesses` — what the rules for both kinds of parentheses that guess have in common.

## Main results

* `Parser.finds_of_run` — what a parser makes of a text it finds in front of a closing
  parenthesis.
* `Guesses.finds` — **parentheses that guess find the query in them.**
* `statement_ok` — a statement that is a query is read by the rule for queries.
-/

namespace SqlSyntax

variable {α β : Type}

/-! ### Runs -/

/-- What a rule makes of a text it finds in front of a closing parenthesis, however deep both
runs may go. -/
theorem Rule.finds_of_run {ts : List TokenKind} (hts : Parser.Closing ts) {depth depth' : Nat}
    (r : Rule) (c c' d : Cursor) (v : r.Result) (hc : c.Inside) (hc' : c'.run = c.run ++ ts)
    (hrun : r.run .ofText depth c = .ok v d) :
    (r.run .ofText depth' c').Finds v (d.run ++ ts) := by
  -- a rule runs others one level deeper, so the induction is on the levels of the first run
  induction depth generalizing depth' r c c' d v with
  | zero => cases hrun
  | succ depth ih =>
    cases depth' with
    | zero => exact rfl
    | succ depth' =>
      have hbody : r.body.Enclosable := inferInstance
      have hlocal : r.body.Local := inferInstance
      exact Parser.carriesOver hts (fun r c c' d v hc hc' => ih r c c' d v hc hc') r.body
        hbody.encloses hlocal.keeps (Parser.Alike.refl _) hc (Nat.zero_le _) hc' hrun

namespace Parser

variable {depth : Nat} {c d : Cursor}

/-- **What a parser makes of a text it finds in front of a closing parenthesis.** -/
theorem finds_of_run {p : Parser α} [hp : p.Enclosable] [hlocal : p.Local] {ts : List TokenKind}
    (hts : Closing ts) (hc : c.Inside) {a : α}
    (hrun : p.runWith .ofText (Rule.run .ofText depth) c = .ok a d) :
    p.Finds (c.run ++ ts) a (d.run ++ ts) :=
  fun _ _ hc' => carriesOver hts (Rule.finds_of_run hts) p hp.encloses hlocal.keeps (Alike.refl p)
    hc (Nat.zero_le _) hc' hrun

/-- What is found in the tokens of a run is its value. -/
theorem Finds.eq_of_run {p : Parser α} {a a' : α} {ts : List TokenKind} (h : p.Finds c.run a ts)
    (hrun : p.runWith .ofText (Rule.run .ofText depth) c = .ok a' d) : a' = a ∧ d.run = ts := by
  have hfinds := h depth c rfl
  rw [hrun] at hfinds
  exact hfinds

/-- A run of two parsers goes through the first. -/
theorem ok_bind {b : Boundary} {rules : (r : Rule) → Cursor → Outcome r.Result} {p : Parser α}
    {f : α → Parser β} {v : β} (hrun : (p >>= f).runWith b rules c = .ok v d) :
    ∃ a c₁, p.runWith b rules c = .ok a c₁ ∧ (f a).runWith b rules c₁ = .ok v d := by
  rw [bind_eq, runWith_bind] at hrun
  cases hp : p.runWith b rules c with
  | ok a c₁ =>
    rw [hp] at hrun
    exact ⟨a, c₁, rfl, hrun⟩
  | error e c₁ =>
    rw [hp] at hrun
    cases hrun

theorem inside_of_ok {p : Parser α} {a : α} (hc : c.Inside)
    (hrun : p.runWith .ofText (Rule.run .ofText depth) c = .ok a d) : d.Inside := by
  have hreach := reaches_runWith (b := .ofText) (Rule.reaches_run .ofText depth) p c
  rw [hrun] at hreach
  exact hc.of_reaches hreach

end Parser

namespace Grammar

open SqlSyntax.Parser

variable {depth : Nat} {c d : Cursor} {s s' : Select} {ts : List TokenKind}

/-! ### Behind a query -/

theorem finds_moreCombined_none (h : continuesQuery (firstOf ts) = false) :
    (moreCombined s).Finds ts none ts := by
  have hword : (firstOf ts).keyword?.bind SetOp.ofWord? = none := by
    revert h
    generalize firstOf ts = k
    intro h
    cases k with
    | keyword w => cases w <;> first | rfl | cases h
    | _ => rfl
  refine finds_kind_bind ?_
  rw [hword]
  exact finds_pure none ts

theorem finds_combinationOf_same (h : continuesQuery (firstOf ts) = false) :
    (combinationOf s).Finds ts s ts :=
  finds_iterate (finds_moreCombined_none h)

theorem finds_queryOrder_same (h : continuesQuery (firstOf ts) = false) :
    (queryOrder s).Finds ts s ts := by
  refine finds_index_bind fun first => (finds_accept_other ?_).bind (finds_pure s ts)
  intro heq
  rw [heq] at h
  cases h

theorem finds_moreClauses_none (h : continuesQuery (firstOf ts) = false) :
    (moreClauses s).Finds ts none ts := by
  refine finds_index_bind fun first => finds_kind_bind ?_
  revert h
  generalize firstOf ts = k
  intro h
  cases k with
  | keyword w => cases w <;> first | exact finds_pure none ts | cases h
  | _ => exact finds_pure none ts

theorem finds_tail_same (h : continuesQuery (firstOf ts) = false)
    (hties : hasUnorderedTies s = false) : (tail s).Finds ts s ts := by
  refine (finds_queryOrder_same h).bind ((finds_iterate (finds_moreClauses_none h)).bind ?_)
  rw [hties]
  exact finds_pure s ts

/-- Where a query is not continued, it is taken as it is. -/
theorem continued_same (h : continuesQuery (firstOf c.run) = false)
    (hrun : (continued s).runWith .ofText (Rule.run .ofText depth) c = .ok s' d) :
    s' = s ∧ d.run = c.run := by
  cases hties : hasUnorderedTies s with
  | false =>
    exact ((finds_combinationOf_same h).bind (finds_tail_same h hties)).eq_of_run hrun
  | true =>
    -- such a query is refused, wherever it ends
    obtain ⟨s₁, c₁, h₁, htail⟩ := ok_bind hrun
    obtain ⟨rfl, hc₁⟩ := (finds_combinationOf_same h).eq_of_run h₁
    rw [← hc₁] at h
    obtain ⟨s₂, c₂, h₂, hclauses⟩ := ok_bind htail
    obtain ⟨rfl, hc₂⟩ := (finds_queryOrder_same h).eq_of_run h₂
    rw [← hc₂] at h
    obtain ⟨s₃, c₃, h₃, hend⟩ := ok_bind hclauses
    obtain ⟨rfl, -⟩ := (finds_iterate (finds_moreClauses_none h)).eq_of_run h₃
    rw [hties] at hend
    cases hend

/-! ### The start of a query -/

theorem cons_of_firstOf {k : TokenKind} (hk : k ≠ .eof) (h : firstOf ts = k) : ∃ ts', ts = k :: ts' := by
  cases ts with
  | nil => exact absurd h.symm hk
  | cons j ts => exact ⟨ts, congrArg (· :: ts) h⟩

theorem expect_ok {k : TokenKind} (hk : k ≠ .eof) {u : Unit}
    (hrun : (expect k).runWith .ofText (Rule.run .ofText depth) c = .ok u d) :
    c.run = k :: d.run := by
  by_cases hfirst : firstOf c.run = k
  · obtain ⟨ts, hts⟩ := cons_of_firstOf hk hfirst
    have hfinds := finds_expect k ts
    rw [← hts] at hfinds
    rw [(hfinds.eq_of_run hrun).2, hts]
  · obtain ⟨found, c₁, haccept, hend⟩ := ok_bind hrun
    obtain ⟨rfl, -⟩ := (finds_accept_other hfirst).eq_of_run haccept
    cases hend

/-- What stands in parentheses, in a run. -/
theorem parenthesized_ok {α : Type} {p : Parser α} {a : α}
    (hrun : (parenthesized p).runWith .ofText (Rule.run .ofText depth) c = .ok a d) :
    ∃ e f, c.run = .leftParen :: e.run ∧ p.runWith .ofText (Rule.run .ofText depth) e = .ok a f ∧
      f.run = .rightParen :: d.run := by
  obtain ⟨u, e, hopen, hbody⟩ := ok_bind hrun
  obtain ⟨a', f, hp, hclose⟩ := ok_bind hbody
  obtain ⟨u', g, hclose, hend⟩ := ok_bind hclose
  cases hend
  exact ⟨e, f, expect_ok TokenKind.noConfusion hopen, hp, expect_ok TokenKind.noConfusion hclose⟩

/-- A query by itself is run one level deeper. -/
theorem query_ok (hrun : query.runWith .ofText (Rule.run .ofText depth) c = .ok s d) :
    ∃ depth', queryWithClauses.runWith .ofText (Rule.run .ofText depth') c = .ok s d := by
  cases depth with
  | zero => cases hrun
  | succ depth =>
    have hcall : query.runWith .ofText (Rule.run .ofText (depth + 1)) c
        = (queryWithClauses.runWith .ofText (Rule.run .ofText depth) c).bind fun s d => .ok s d := by
      simp only [query, Parser.runWith, Rule.run, Rule.body]
      cases queryWithClauses.runWith .ofText (Rule.run .ofText depth) c <;> rfl
    rw [hcall] at hrun
    cases hbody : queryWithClauses.runWith .ofText (Rule.run .ofText depth) c with
    | ok s' d' =>
      rw [hbody] at hrun
      cases hrun
      exact ⟨depth, hbody⟩
    | error e d' =>
      rw [hbody] at hrun
      cases hrun

/-- A query starts with its first word, or with another in parentheses that it continues. -/
theorem queryWithClauses_ok
    (hrun : queryWithClauses.runWith .ofText (Rule.run .ofText depth) c = .ok s d) :
    startsQuery (firstOf c.run) = true ∨
      ∃ depth' e inner f g, c.run = .leftParen :: e.run ∧
        queryWithClauses.runWith .ofText (Rule.run .ofText depth') e = .ok inner f ∧
        f.run = .rightParen :: g.run ∧
        (continued inner).runWith .ofText (Rule.run .ofText depth) g = .ok s d := by
  by_cases hwith : firstOf c.run = .keyword .WITH
  · rw [hwith]
    exact .inl rfl
  obtain ⟨found, c₁, haccept, hbody⟩ := ok_bind hrun
  obtain ⟨rfl, hc₁⟩ := (finds_accept_other hwith).eq_of_run haccept
  obtain ⟨s₁, c₂, hcombination, htail⟩ := ok_bind hbody
  obtain ⟨s₀, c₃, hsimple, hmore⟩ := ok_bind hcombination
  have hfirst : c₁.current .ofText = firstOf c.run := by rw [← hc₁]; rfl
  simp only [simpleQuery, kind, bind_eq, Parser.bind, Parser.runWith, hfirst] at hsimple
  split at hsimple
  · next h => exact .inl (by rw [h]; rfl)
  · next h => exact .inl (by rw [h]; rfl)
  · obtain ⟨e, f, hopen, hquery, hclose⟩ := parenthesized_ok hsimple
    obtain ⟨depth', hquery⟩ := query_ok hquery
    rw [hc₁] at hopen
    refine .inr ⟨depth', e, s₀, f, c₃, hopen, hquery, hclose, ?_⟩
    rw [continued, bind_eq, runWith_bind, hmore]
    exact htail
  · cases hsimple

/-! ### Parentheses that guess -/

/-- The parser finds a query in parentheses by the first word of the query, or by what inner
parentheses hold and the token behind them. -/
structure Guesses (p : Parser Enclosed) : Prop where
  starts : ∀ {s : Select} {ts ts' : List TokenKind}, startsQuery (firstOf ts) = true →
    query.Finds ts s (.rightParen :: ts') → p.Finds (.leftParen :: ts) (.query s) ts'
  same : ∀ {s : Select} {ts ts' : List TokenKind},
    p.Finds (.leftParen :: ts) (.query s) (.rightParen :: ts') →
    (continued s).Finds (.rightParen :: ts') s (.rightParen :: ts') →
    p.Finds (.leftParen :: .leftParen :: ts) (.query s) ts'
  more : ∀ {s s' : Select} {ts ts₁ ts' : List TokenKind},
    p.Finds (.leftParen :: ts) (.query s) ts₁ → continuesQuery (firstOf ts₁) = true →
    (continued s).Finds ts₁ s' (.rightParen :: ts') →
    p.Finds (.leftParen :: .leftParen :: ts) (.query s') ts'

/-- What holds of a first token holds of it in front of others. -/
theorem firstOf_append {f : TokenKind → Bool} (hf : f .eof = false) (h : f (firstOf ts) = true)
    (ts' : List TokenKind) : f (firstOf (ts ++ ts')) = true := by
  cases ts with
  | nil =>
    rw [firstOf_nil, hf] at h
    cases h
  | cons k ts => exact h

/-- **Parentheses that guess find the query in them**, however many stand inside one another. -/
theorem Guesses.finds {p : Parser Enclosed} (h : Guesses p) {ts' : List TokenKind}
    (hts' : Closing ts') (hc : c.Inside)
    (hrun : queryWithClauses.runWith .ofText (Rule.run .ofText depth) c = .ok s d)
    (hclose : d.run ++ ts' = .rightParen :: ts) :
    p.Finds (.leftParen :: (c.run ++ ts')) (.query s) ts := by
  -- the induction is on the length of the text, since what stands in inner parentheses is shorter
  induction hlength : c.run.length using Nat.strongRecOn generalizing depth c d s ts with
  | ind n ih =>
    rcases queryWithClauses_ok hrun with hstart | ⟨depth', e, inner, f, g, hopen, hquery, hf, hrest⟩
    · have hquery := finds_query (finds_of_run hts' hc hrun)
      rw [hclose] at hquery
      exact h.starts (firstOf_append rfl hstart ts') hquery
    · have he : e.Inside := fun k hk => hc k (by rw [hopen]; exact List.mem_cons_of_mem _ hk)
      have hg : g.Inside := fun k hk =>
        inside_of_ok he hquery k (by rw [hf]; exact List.mem_cons_of_mem _ hk)
      have hshorter : e.run.length < n := by rw [← hlength, hopen]; exact Nat.lt_succ_self _
      have hcloses : f.run ++ ts' = .rightParen :: (g.run ++ ts') := by rw [hf, List.cons_append]
      have hinner := ih e.run.length hshorter he hquery hcloses rfl
      have hcontinued := finds_of_run (p := continued inner) hts' hg hrest
      rw [hopen]
      -- the token behind the inner parentheses tells whether the query in them goes on
      by_cases hmore : continuesQuery (firstOf g.run) = true
      · rw [hclose] at hcontinued
        exact h.more hinner (firstOf_append rfl hmore ts') hcontinued
      · obtain ⟨rfl, hd⟩ := continued_same (Bool.eq_false_iff.mpr hmore) hrest
        rw [← hd, hclose] at hcontinued hinner
        exact h.same hinner hcontinued

theorem guesses_enclosed : Guesses enclosed where
  starts hstart hquery := by
    refine (finds_expect .leftParen _).bind (finds_kind_bind ?_)
    rw [if_pos hstart]
    exact hquery.bind ((finds_expect .rightParen _).bind (finds_pure _ _))
  same hinner _ := by
    refine (finds_expect .leftParen _).bind (finds_kind_bind ?_)
    rw [firstOf_cons]
    refine (finds_enclosedContent hinner).bind (finds_kind_bind ?_)
    exact finds_skip_bind (finds_pure _ _)
  more hinner hmore hcontinued := by
    refine (finds_expect .leftParen _).bind (finds_kind_bind ?_)
    rw [firstOf_cons]
    refine (finds_enclosedContent hinner).bind (finds_kind_bind ?_)
    rw [if_pos hmore]
    exact hcontinued.bind ((finds_expect .rightParen _).bind (finds_pure _ _))

theorem guesses_enclosedSource : Guesses enclosedSource where
  starts hstart hquery := by
    refine finds_parenthesized (finds_kind_bind ?_)
    rw [if_pos hstart]
    exact hquery.bind (finds_pure _ _)
  same hinner hcontinued := by
    refine finds_parenthesized (finds_kind_bind ?_)
    rw [firstOf_cons]
    refine (finds_enclosedSourceContent hinner).bind (finds_kind_bind ?_)
    exact hcontinued.bind (finds_pure _ _)
  more hinner hmore hcontinued := by
    refine finds_parenthesized (finds_kind_bind ?_)
    rw [firstOf_cons]
    refine (finds_enclosedSourceContent hinner).bind (finds_kind_bind ?_)
    rw [hmore]
    exact hcontinued.bind (finds_pure _ _)

/-! ### Statements -/

/-- Where no change starts, nothing is read. -/
theorem change?_none (hrun : change?.runWith .ofText (Rule.run .ofText depth) c = .ok none d) :
    c = d := by
  have hsome {p : Parser Change} (hp : (p >>= fun x => pure (some x)).runWith .ofText
      (Rule.run .ofText depth) c.advance = .ok none d) : False := by
    obtain ⟨x, c₁, -, hend⟩ := ok_bind hp
    cases hend
  simp only [change?, kind, skip, bind_eq, Parser.bind, Parser.runWith] at hrun
  split at hrun
  · exact (hsome (p := insert >>= fun x => pure (.insert x)) (by rw [bind_assoc]; exact hrun)).elim
  · exact (hsome (p := update >>= fun x => pure (.update x)) (by rw [bind_assoc]; exact hrun)).elim
  · exact (hsome (p := delete >>= fun x => pure (.delete x)) (by rw [bind_assoc]; exact hrun)).elim
  · cases hrun
    rfl

theorem accept_runWith {k : TokenKind} (h : firstOf c.run = k) :
    (accept k).runWith .ofText (Rule.run .ofText depth) c = .ok true c.advance := by
  have hcurrent : c.current .ofText = k := h
  simp only [accept, isAt, kind, skip, bind_eq, Parser.bind, Parser.runWith, pure_eq, hcurrent,
    decide_true, if_true]

/-- **A statement that is a query is read by the rule for queries.** -/
theorem statement_ok (hrun : statement.run .ofText c = .ok (.select s) d) :
    ∃ depth, queryWithClauses.runWith .ofText (Rule.run .ofText depth) c = .ok s d := by
  have hselect (h : (query >>= fun s => pure (Node.select s)).runWith .ofText
      (Rule.run .ofText maxNesting) c = .ok (.select s) d) :
      ∃ depth, queryWithClauses.runWith .ofText (Rule.run .ofText depth) c = .ok s d := by
    obtain ⟨s', c₁, hquery, hend⟩ := ok_bind h
    cases hend
    exact query_ok hquery
  simp only [Parser.run, statement, kind, bind_eq, Parser.bind, Parser.runWith] at hrun
  split at hrun
  · exact hselect hrun
  · exact hselect hrun
  · exact hselect hrun
  · next hfirst =>
    -- the word `WITH` stands in front of changes too
    refine ⟨maxNesting, ?_⟩
    have hwith : (skip >>= fun _ => statementAfterWith).runWith .ofText (Rule.run .ofText maxNesting) c
        = .ok (.select s) d := hrun
    obtain ⟨u, c₁, hskip, hafter⟩ := ok_bind hwith
    cases hskip
    obtain ⟨w, c₂, hctes, hbehind⟩ := ok_bind hafter
    obtain ⟨o, c₃, hchange, hend⟩ := ok_bind hbehind
    cases o with
    | some x => exact absurd (Outcome.ok.inj hend).1 (noQuery_change (x.withCtes w) s)
    | none =>
      obtain rfl := change?_none hchange
      obtain ⟨s', c₄, hquery, hend⟩ := ok_bind hend
      cases hend
      rw [queryWithClauses, bind_eq, runWith_bind, acceptWord, accept_runWith hfirst,
        Outcome.bind_ok, if_pos rfl, bind_eq, runWith_bind, hctes]
      exact hquery
  · let K : Known := ⟨fun _ => True, fun _ _ => True⟩
    have hother : otherStatement.Yields K Node.NoQuery := otherStatement_noQuery
    have hfits : Fits K .ofText c := ⟨fun _ _ => trivial, trivial, trivial⟩
    exact absurd rfl (hother.of_run (fun r => yields_trivial r.body) hfits hrun s)

end Grammar

end SqlSyntax
