import SqlSyntax.Proofs.Grammar.TallyStatement
import SqlSyntax.Proofs.Lexeme.Tiling
import SqlSyntax.Proofs.Script.Accounting
import SqlSyntax.Proofs.Script.Shape

/-!
# The parameters of a script

A statement takes up a run of tokens, and no other run starts where it does.  A traversal
of its tree meets the parameters that stand among these tokens, each as often as it stands
there.

## Main definitions

* `RawStatement.TakesUp` — the run of tokens that a statement takes up.
* `TokenKind.param?` — the number of a parameter.

## Main results

* `RawStatement.TakesUp.unique` — a statement takes up one run only.
* `walk_meets_parameters` — **a traversal meets the parameters of the tokens.**
-/

namespace SqlSyntax

/-! ### Runs of statements -/

/-- The statement starts and ends with the run from position `i` on and before position
`j` of the tokens. -/
structure RawStatement.TakesUp (s : RawStatement) (ts : List Token) (i j : Nat) : Prop where
  run : IsRun ts i j
  first : ∃ t, ts[i]? = some t ∧ s.location = t.span.start
  last : ∃ t, ts[j - 1]? = some t ∧ s.location + s.length = t.span.stop

/-- Every token but the last takes some of the text. -/
theorem Tiled.start_lt_stop {place : Nat} {cs : List Char} {ls : List Lexeme}
    (h : Tiled place cs ls) : ∀ s ∈ (spans ls).dropLast, s.start < s.stop := by
  induction h with
  | last _ _ _ => exact fun _ hs => absurd hs List.not_mem_nil
  | @cons place gap text after l ls _ hne hl hls ih =>
    have hspans : spans ls ≠ [] := List.map_eq_nil_iff.not.mpr hls.ne_nil
    rw [spans_cons, List.dropLast_cons_of_ne_nil hspans]
    refine List.forall_mem_cons.mpr ⟨?_, ih⟩
    rw [hl.span]
    exact Nat.lt_add_of_pos_right (byteLength_pos hne)

/-- Of two tokens of a text, the one that comes later starts later. -/
theorem start_lt_of_lexemes {d : Dialect} {source : List Char} {m n : Nat} (hlt : m < n)
    {t u : Token} (ht : (tokensOf (lexemes d source))[m]? = some t)
    (hu : (tokensOf (lexemes d source))[n]? = some u) : t.span.start < u.span.start := by
  -- a token that another one follows is not the last raw one either, so it is not empty
  have hspans := (spans_resolve_sublist d false (rawLexemes d source)).reverse.tail
  rw [List.tail_reverse, List.tail_reverse, List.reverse_sublist] at hspans
  have hn : n < (spans (lexemes d source)).length := by
    simpa [spans] using (List.getElem?_eq_some_iff.mp hu).1
  have hspan : (spans (lexemes d source))[m]? = some t.span := by
    have hmap := congrArg (Option.map Token.span) ht
    rwa [← List.getElem?_map, List.map_map] at hmap
  have hbefore : t.span ∈ (spans (lexemes d source)).dropLast := by
    refine List.mem_of_getElem? (i := m) ?_
    rw [List.getElem?_dropLast, if_pos (by omega), hspan]
  have htakes := (tiled_rawLexemesFrom d 0 source).start_lt_stop t.span (hspans.subset hbefore)
  exact Nat.lt_of_lt_of_le htakes ((laid_lexemes d source).stop_le hlt ht hu)

namespace RawStatement.TakesUp

variable {s : RawStatement} {d : Dialect} {source : List Char} {i j i' j' : Nat}

/-- A statement takes up one run only. -/
theorem unique (h : s.TakesUp (tokensOf (lexemes d source)) i j)
    (h' : s.TakesUp (tokensOf (lexemes d source)) i' j') : i = i' ∧ j = j' := by
  obtain ⟨t, ht, hstart⟩ := h.first
  obtain ⟨t', ht', hstart'⟩ := h'.first
  have hsame : t.span.start = t'.span.start := hstart.symm.trans hstart'
  obtain rfl : i = i' := by
    rcases Nat.lt_trichotomy i i' with hlt | heq | hlt
    · exact absurd hsame (start_lt_of_lexemes hlt ht ht').ne
    · exact heq
    · exact absurd hsame (start_lt_of_lexemes hlt ht' ht).ne'
  exact ⟨rfl, h.run.stop_unique h'.run⟩

end RawStatement.TakesUp

/-! ### Parameters -/

/-- The number of a parameter. -/
def TokenKind.param? : TokenKind → Option Int
  | param m => some m
  | _ => none

theorem TokenKind.total_params (ks : List TokenKind) :
    total params ks = (ks.filterMap param? : List Int) := by
  induction ks with
  | nil => rfl
  | cons k ks ih =>
    rw [total_cons, ih]
    cases k <;> rfl

theorem Passage.LiesIn.kinds_eq {p : Passage} {ls : List Lexeme} (h : p.LiesIn ls) :
    ((tokensOf ls).extract p.place (p.place + p.run.length)).map Token.kind = p.kinds := by
  obtain ⟨before, behind, rfl, hlen⟩ := h.split
  have hdrop : (tokensOf (before ++ (p.run ++ p.stop :: behind))).drop p.place
      = tokensOf p.run ++ tokensOf (p.stop :: behind) := by
    rw [tokensOf, List.map_append, List.map_append]
    exact List.drop_left' (by rw [List.length_map, hlen])
  have htake : (tokensOf p.run ++ tokensOf (p.stop :: behind)).take p.run.length
      = tokensOf p.run :=
    List.take_left' (List.length_map _)
  rw [List.extract_eq_take_drop, Nat.add_sub_cancel_left, hdrop, htake, List.map_map]
  rfl

open Session in
/-- **A traversal meets the parameters of the tokens**: a statement takes up a run of the
tokens of its script, and among the nodes of its tree there is each parameter as often as
among the tokens of the run. -/
theorem walk_meets_parameters (d : Dialect) (source : List Char) :
    let ts := (TokenStream.ofText d source).tokenize.1
    ∀ s ∈ (parse d source).statements,
      (∃ i j, s.TakesUp ts i j) ∧
      ∀ i j, s.TakesUp ts i j →
        ((s.node.walk.filterMap Node.param? : List Int) : Multiset Int)
          = ((ts.extract i j).filterMap fun t => t.kind.param? : List Int) := by
  rw [tokenize_ofText]
  intro ts s hs
  have hsegments := (endsOnce_lexemes d source).segments
  obtain ⟨p, hp, hresult⟩ := exists_passage_of_mem_statements hs
  have hlies : p.LiesIn (lexemes d source) := liesIn_of_mem_passages hsegments hp
  obtain ⟨first, last, _, hfirst, hlast, _, hsettles⟩ := settles_attemptWhole d source hlies
  rw [hresult] at hsettles
  have hruns : IsRun ts p.place (p.place + p.run.length) :=
    (mem_bounds_passages hsegments _ _).mp (List.mem_map_of_mem hp)
  have htakes : s.TakesUp ts p.place (p.place + p.run.length) :=
    ⟨hruns, ⟨first, hfirst, hsettles.2.1⟩, ⟨last, hlast, hsettles.2.2⟩⟩
  refine ⟨⟨_, _, htakes⟩, fun i j h => ?_⟩
  obtain ⟨rfl, rfl⟩ := h.unique htakes
  obtain ⟨c, c', hc, hrun⟩ := attemptWhole_node hresult
  -- nothing of the run is left, so the tree accounts for all of it
  have hnil : c'.run = [] :=
    run_eq_nil_of_wholeStatement (fun k hk => hlies.kinds_inside (hc ▸ hk)) hrun
  have htally := Grammar.tallies_wholeStatement.of_run Grammar.tallies_body hlies.stop hrun
  rw [hnil, total_nil, add_zero, hc, ← hlies.kinds_eq, TokenKind.total_params] at htally
  rw [List.filterMap_map] at htally
  exact htally.symm

/-- The update of a text takes up its tokens, and its tree has their parameters. -/
theorem walk_meets_parameters_update :
    let source := "UPDATE t SET a = $2 WHERE b IN ($1, $2)".toList
    ∃ s ∈ (parse .postgres source).statements,
      s.TakesUp (TokenStream.ofText .postgres source).tokenize.1 0 14 ∧
      ((s.node.walk.filterMap Node.param? : List Int) : Multiset Int) = {1, 2, 2} := by
  intro source
  -- one decision, so that the text is read once
  obtain ⟨hplace, hinside, hfirst, hlast, hend, hparams⟩ :
      (parse .postgres source).statements.head?.map (fun s => (s.location, s.length)) = some (0, 39) ∧
      (∀ n < 14, ((TokenStream.ofText .postgres source).tokenize.1[n]?.map
        fun t => t.kind.endsStatement) = some false) ∧
      (TokenStream.ofText .postgres source).tokenize.1[0]? = some ⟨.keyword .UPDATE, ⟨0, 6⟩⟩ ∧
      (TokenStream.ofText .postgres source).tokenize.1[13]? = some ⟨.rightParen, ⟨38, 39⟩⟩ ∧
      (TokenStream.ofText .postgres source).tokenize.1[14]? = some ⟨.eof, ⟨39, 39⟩⟩ ∧
      (((TokenStream.ofText .postgres source).tokenize.1.extract 0 14).filterMap
        fun t => t.kind.param?) = [2, 1, 2] := by
    decide +kernel
  obtain ⟨s, hs, hplace⟩ := Option.map_eq_some_iff.mp hplace
  obtain ⟨hlocation, hlength⟩ := Prod.mk.inj hplace
  have htakes : s.TakesUp (TokenStream.ofText .postgres source).tokenize.1 0 14 := by
    refine ⟨⟨by decide, fun n _ hn => ?_, ⟨_, hend, rfl⟩, .inl rfl⟩, ⟨_, hfirst, hlocation⟩, ?_⟩
    · exact Option.map_eq_some_iff.mp (hinside n hn)
    · exact ⟨_, hlast, by rw [hlocation, hlength]⟩
  have hmem := List.mem_of_head? hs
  refine ⟨s, hmem, htakes, ((walk_meets_parameters .postgres source s hmem).2 0 14 htakes).trans ?_⟩
  rw [hparams]
  decide

end SqlSyntax
