import SqlSyntax.Proofs.Lexeme.Slice
import SqlSyntax.Proofs.Script.Isolation
import SqlSyntax.Proofs.Script.Shape

/-!
# Statements as texts of their own

A statement knows where its first token starts and where its last one ends.  The text in
between has the tokens of the statement and is read as the same statement.  One thing is
lost: a `UESCAPE` clause at the end of a statement, which is read together with the literal
in front of it and belongs to no token.

## Main definitions

* `Frames run init` — the lexemes `init` stand where `run` did.

## Main results

* `frames_resolve` — resolved lexemes stand where the raw ones did, but for a last clause.
* `exists_run_of_mem_passages` — a statement is a run of raw lexemes.
* `parse_slice` — **the text of a statement is this statement.**
-/

namespace SqlSyntax

variable {d : Dialect} {source : List Char}

/-! ### What ends a statement -/

theorem eq_semicolon_of_symbolKind {c : Char} (h : symbolKind c = .semicolon) : c = ';' := by
  by_contra hc
  unfold symbolKind at h
  rw [if_neg hc] at h
  repeat' split at h
  all_goals cases h

theorem operatorKind_ne_semicolon (op : String) : operatorKind op ≠ .semicolon := by
  unfold operatorKind
  split <;> exact TokenKind.noConfusion

/-- Only a semicolon is read as one, and without notes. -/
theorem notes_readToken_semicolon {start : Nat} {c : Char} {cs : List Char}
    (h : (readToken d start c cs).kind = .semicolon) : (readToken d start c cs).notes = [] := by
  have hkind := kindBy_readToken d start c cs
  generalize (readToken d start c cs).kind = k at hkind h
  cases hkind with
  | text hk =>
    rw [h] at hk
    cases hk
  | integer | float => cases h
  | pair hk =>
    rw [h] at hk
    exact absurd hk (by decide)
  | operator op => exact absurd h (operatorKind_ne_semicolon op)
  | symbol =>
    obtain rfl := eq_semicolon_of_symbolKind h
    rw [readToken_semicolon]

theorem endsStatement_iff {k : TokenKind} :
    k.endsStatement = true ↔ k = .semicolon ∨ k = .eof := by
  cases k <;> simp [TokenKind.endsStatement]

/-- What ends a statement is looked at by nothing in front of it. -/
theorem inert_of_endsStatement (hclosed : Closed (rawLexemes d source)) {l : Lexeme}
    (hl : l ∈ rawLexemes d source) (hends : l.kind.endsStatement = true) : l.Inert := by
  have hnotes : l.notes = [] := by
    rcases endsStatement_iff.mp hends with hkind | hkind
    · rcases rawLexeme_cases hl with ⟨heof, -⟩ | ⟨before, rest, -, c, cs, -, -, -, rfl⟩
      · rw [hkind] at heof
        cases heof
      · exact notes_readToken_semicolon hkind
    · obtain ⟨init, hinit, hlexemes, -⟩ := rawLexemes_append d source [] hclosed
      rw [hlexemes, List.mem_append, List.mem_singleton] at hl
      rcases hl with hl | rfl
      · exact absurd hkind (hinit l hl)
      · rfl
  rcases endsStatement_iff.mp hends with hkind | hkind <;>
    refine ⟨?_, ?_, ?_, hnotes⟩ <;> rw [hkind] <;>
    first | rfl | exact fun _ => TokenKind.noConfusion

/-! ### Where resolved lexemes stand -/

/-- The lexemes `init` stand where `run` did: the first where the first did, and the last where the
last did, unless that belongs to the clause of a literal. -/
structure Frames (run init : List Lexeme) : Prop where
  inside : (∀ l ∈ run, l.kind.endsStatement = false) → ∀ l ∈ init, l.kind.endsStatement = false
  first : init.head?.map (·.token.span) = run.head?.map (·.token.span)
  last : init.getLast?.map (·.token.span) = run.getLast?.map (·.token.span) ∨
    ∃ l u, [l, u] <:+: run ∧ isEscaped l.kind = true ∧ u.kind = .keyword .UESCAPE ∧
      init.getLast?.map (·.token.span) = some l.token.span

theorem getLast?_cons_of_ne_nil {l : Lexeme} {ls : List Lexeme} (h : ls ≠ []) :
    (l :: ls).getLast? = ls.getLast? := by
  obtain ⟨m, ms, rfl⟩ := List.exists_cons_of_ne_nil h
  rw [List.getLast?_cons_cons]

theorem Frames.eq_nil {run init : List Lexeme} (h : Frames run init) (hrun : run = []) :
    init = [] := by
  have hfirst := h.first
  rw [hrun, List.head?_nil, Option.map_none, Option.map_eq_none_iff, List.head?_eq_none_iff] at hfirst
  exact hfirst

theorem Frames.ne_nil {run init : List Lexeme} (h : Frames run init) (hrun : run ≠ []) :
    init ≠ [] := by
  rintro rfl
  have hfirst := h.first
  rw [List.head?_nil, Option.map_none, eq_comm, Option.map_eq_none_iff,
    List.head?_eq_none_iff] at hfirst
  exact hrun hfirst

/-- A lexeme in front, with the lexemes of its clause that are used up. -/
theorem Frames.cons {l m : Lexeme} {run init : List Lexeme} {used : Nat}
    (h : Frames (run.drop used) init)
    (hkind : l.kind.endsStatement = false → m.kind.endsStatement = false)
    (hspan : m.token.span = l.token.span)
    (hused : used ≠ 0 → isEscaped l.kind = true ∧
      ∃ u ls, run = u :: ls ∧ u.kind = .keyword .UESCAPE) : Frames (l :: run) (m :: init) := by
  refine ⟨fun hinside => ?_, congrArg some hspan, ?_⟩
  · rw [List.forall_mem_cons] at hinside ⊢
    exact ⟨hkind hinside.1, h.inside fun l' hl' => hinside.2 l' (List.mem_of_mem_drop hl')⟩
  -- the last lexeme is `l`, with or without its clause, or it stands further on
  by_cases hrest : run.drop used = []
  · obtain rfl := h.eq_nil hrest
    by_cases hnone : used = 0
    · subst hnone
      obtain rfl : run = [] := hrest
      exact .inl (congrArg some hspan)
    · obtain ⟨hescaped, u, ls, rfl, hu⟩ := hused hnone
      exact .inr ⟨l, u, (List.prefix_append [l, u] ls).isInfix, hescaped, hu, congrArg some hspan⟩
  · have hinit := h.ne_nil hrest
    have hsuffix : run.drop used <:+ l :: run :=
      (List.drop_suffix used run).trans (List.suffix_cons l run)
    have hlast : (l :: run).getLast? = (run.drop used).getLast? := by
      obtain ⟨t, ht⟩ := hsuffix
      rw [← ht, List.getLast?_append_of_ne_nil _ hrest]
    rw [hlast, getLast?_cons_of_ne_nil hinit]
    refine h.last.imp id ?_
    rintro ⟨l', u, hpair, hl'⟩
    exact ⟨l', u, hpair.trans hsuffix.isInfix, hl'⟩

theorem endsStatement_aheadKind (k : Keyword) (next : Option Keyword) :
    (aheadKind k next).endsStatement = false := by
  unfold aheadKind
  split <;> rfl

theorem endsStatement_decodedKind {start : Nat} {escape : Char} {k : TokenKind}
    (hk : isEscaped k = true) : (decodedKind d start escape k).1.endsStatement = false := by
  cases k with
  | escapedString | escapedName => rfl
  | _ => cases hk

/-- Only a clause uses lexemes up. -/
theorem escapeClause_used {ls : List Lexeme} (h : (escapeClause ls).used ≠ 0) :
    ∃ u rest, ls = u :: rest ∧ u.kind = .keyword .UESCAPE := by
  fun_cases escapeClause ls with
  | case1 | case2 => exact absurd rfl h
  | case3 u operand rest hu | case4 u operand rest hu | case5 u operand rest hu =>
    exact ⟨u, operand :: rest, rfl, keyword?_eq_some.mp hu⟩
  | case6 u operand rest hu =>
    rw [escapeClause, if_neg hu] at h
    exact absurd rfl h

/-- **Resolved lexemes stand where the raw ones did**, up to the end of a statement. -/
theorem frames_resolve {e : Lexeme} (he : e.Inert) (rest : List Lexeme) (looked : Bool)
    (run : List Lexeme) : ∃ init,
      resolve d looked (run ++ e :: rest) = init ++ e :: resolve d false rest ∧ Frames run init := by
  induction looked, run using resolve_induction with
  | nil looked => exact ⟨[], resolve_inert he, fun _ => nofun, rfl, .inl rfl⟩
  | cons looked l run ih =>
    rcases lexeme_cases l with ⟨key, hkey, hahead⟩ | hl | ⟨hkey, hl⟩
    · obtain ⟨init, hinit, hframes⟩ := ih true 0
      rw [List.drop_zero] at hinit
      rw [List.cons_append, resolve_keyword hkey hahead, hinit]
      exact ⟨_ :: init, rfl,
        hframes.cons (fun _ => endsStatement_aheadKind _ _) rfl fun h => absurd rfl h⟩
    · -- no clause reaches beyond the end of the statement
      obtain ⟨-, hused⟩ := escapeClause_append he he run rest rest
      obtain ⟨init, hinit, hframes⟩ :=
        ih (escapeClause (run ++ e :: rest)).looked (escapeClause (run ++ e :: rest)).used
      rw [List.cons_append, resolve_escaped hl, List.drop_append_of_le_length hused, hinit]
      refine ⟨_ :: init, rfl,
        hframes.cons (fun _ => endsStatement_decodedKind hl) rfl fun hne => ⟨hl, ?_⟩⟩
      obtain ⟨u, ls, hls, hu⟩ := escapeClause_used hne
      cases run with
      | nil => exact absurd (Nat.le_zero.mp hused) hne
      | cons v run =>
        obtain rfl := (List.cons.inj hls).1
        exact ⟨v, run, rfl, hu⟩
    · obtain ⟨init, hinit, hframes⟩ := ih false 0
      rw [List.drop_zero] at hinit
      rw [List.cons_append, resolve_plain hkey hl, hinit]
      exact ⟨_ :: init, rfl, hframes.cons id rfl fun h => absurd rfl h⟩

/-! ### The raw lexemes of a statement -/

/-- The raw lexemes `run`, which `e` ends, become those of a passage. -/
structure Passage.Resolves (d : Dialect) (p : Passage) (run : List Lexeme) (e : Lexeme)
    (rest : List Lexeme) : Prop where
  nonempty : run ≠ []
  inert : e.Inert
  stop : e.kind.endsStatement = true
  resolved : resolve d false (run ++ e :: rest) = p.run ++ e :: resolve d false rest
  frames : Frames run p.run

/-- **A statement is a run of raw lexemes**, resolved as if nothing stood before it. -/
theorem exists_run_of_mem_passages {fin : Lexeme} {raw : List Lexeme} (h : Segments raw)
    (hinert : ∀ l ∈ raw, l.kind.endsStatement = true → l.Inert) {place : Nat} {p : Passage}
    (hp : p ∈ passages fin place (resolve d false raw)) :
    ∃ before run e rest, raw = before ++ (run ++ e :: rest) ∧ p.Resolves d run e rest := by
  induction h generalizing place with
  | nil => cases hp
  | @skip m ls stop rest ih =>
    have hm := hinert m List.mem_cons_self stop
    rw [resolve_inert hm, passages_skip stop] at hp
    obtain ⟨before, run, e, behind, rfl, hread⟩ :=
      ih (fun l hl => hinert l (List.mem_cons_of_mem m hl)) hp
    exact ⟨m :: before, run, e, behind, rfl, hread⟩
  | @run r m ls nonempty inside stop rest ih =>
    have hm := hinert m (List.mem_append_right r List.mem_cons_self) stop
    obtain ⟨init, hinit, hframes⟩ := frames_resolve (d := d) hm ls false r
    rw [hinit, passages_run stop (hframes.ne_nil nonempty) (hframes.inside inside),
      List.mem_cons] at hp
    rcases hp with rfl | hp
    · exact ⟨[], r, m, ls, rfl, nonempty, hm, stop, hinit, hframes⟩
    · obtain ⟨before, run, e, behind, rfl, hread⟩ :=
        ih (fun l hl => hinert l (List.mem_append_right r (List.mem_cons_of_mem m hl))) hp
      exact ⟨r ++ m :: before, run, e, behind, by rw [List.append_assoc, List.cons_append], hread⟩

/-! ### Slices -/

/-- A text with the raw lexemes of a passage, further on there, holds the statement of the
passage. -/
theorem moves_of_resolves {p : Passage} {run rest inner ls : List Lexeme} {e : Lexeme} {k : Nat}
    {text : List Char} (hp : p.Resolves d run e rest) (hlies : p.LiesIn ls)
    (hrun : run = inner.map (Lexeme.shift k))
    (htext : rawLexemes d text = inner ++ [endLexeme 0 text []]) :
    ∃ init fin, IsPassage d text init fin ∧ (IsPassage.passage d text init fin).Moves k p := by
  let e' := (endLexeme 0 text []).shift k
  have he' : e'.Inert := ⟨rfl, rfl, fun _ => TokenKind.noConfusion, rfl⟩
  obtain ⟨init₁, init₂, h₁, h₂, halike⟩ := resolve_append (d := d) hp.inert he' rest [] false run
  have hinit : init₁ = p.run := List.append_cancel_right (h₁.symm.trans hp.resolved)
  have hlexemes : (lexemes d text).map (Lexeme.shift k) = init₂ ++ [e'] := by
    rw [lexemes, ← resolve_shift, htext, List.map_append, ← hrun]
    exact h₂
  obtain ⟨init, last, hsplit, hmap, hlast⟩ := List.map_eq_append_iff.mp hlexemes
  obtain ⟨fin, rfl, hfin⟩ := List.map_eq_singleton_iff.mp hlast
  have hkind : fin.kind = .eof := congrArg Lexeme.kind hfin
  have htokens : tokensOf p.run = (tokensOf init).map (Token.shift k) := by
    rw [← hinit, tokensOf_eq_of_alike halike, ← hmap, tokensOf_map_shift]
  have hinside : ∀ l ∈ init, l.kind.endsStatement = false := by
    intro l hl
    have hmem : l.token.shift k ∈ tokensOf p.run := by
      rw [htokens]
      exact List.mem_map_of_mem (List.mem_map_of_mem hl)
    obtain ⟨m, hm, htoken⟩ := List.mem_map.mp hmem
    have hsame : m.token.kind = (l.token.shift k).kind := congrArg Token.kind htoken
    show (l.token.shift k).kind.endsStatement = false
    rw [← hsame]
    exact hlies.inside m hm
  refine ⟨init, fin, ⟨hsplit, hkind, hinside⟩, htokens, ?_, hinside, ?_, hlies.stop⟩
  · rintro rfl
    exact hlies.nonempty (List.map_eq_nil_iff.mp htokens)
  · show fin.kind.endsStatement = true
    rw [hkind]
    rfl

/-- Where the first and the last token of a passage stand. -/
theorem head?_span_run {p : Passage} (h : p.run ≠ []) :
    p.run.head?.map (·.token.span) = some p.firstToken.span := by
  have := congrArg (Option.map Token.span) (p.head?_tokensOf h)
  rwa [List.head?_map, Option.map_map] at this

theorem getLast?_span_run {p : Passage} (h : p.run ≠ []) :
    p.run.getLast?.map (·.token.span) = some p.lastToken.span := by
  have := congrArg (Option.map Token.span) (p.getLast?_tokensOf h)
  rwa [List.getLast?_map, Option.map_map] at this

/-- Where a statement stands, if it does not end in the clause of a literal. -/
theorem span_of_frames {p : Passage} {run inner : List Lexeme} {k n : Nat} (h : Frames run p.run)
    (hne : run ≠ []) (hrun : run = inner.map (Lexeme.shift k))
    (hstart : ∀ l ∈ inner.head?, l.token.span.start = 0) (hstop : stopOf 0 inner = n)
    (hclause : ∀ l u, [l, u] <:+: run → isEscaped l.kind = true → u.kind = .keyword .UESCAPE →
      l.token.span.stop ≠ p.lastToken.span.stop) :
    p.firstToken.span.start = k ∧ p.lastToken.span.stop = n + k := by
  have hinner : inner ≠ [] := by
    rintro rfl
    exact hne hrun
  have hfirst := h.first
  have hlast := h.last
  rw [head?_span_run (h.ne_nil hne)] at hfirst
  rw [getLast?_span_run (h.ne_nil hne)] at hlast
  constructor
  · obtain ⟨l, ls, rfl⟩ := List.exists_cons_of_ne_nil hinner
    rw [hrun] at hfirst
    rw [Option.some.inj hfirst]
    show l.token.span.start + k = k
    rw [hstart l rfl, Nat.zero_add]
  · rcases hlast with hlast | ⟨l, u, hpair, hl, hu, hspan⟩
    · rw [← List.dropLast_append_getLast hinner] at hrun hstop
      rw [stopOf_append_singleton] at hstop
      rw [hrun, List.map_append, List.map_singleton, List.getLast?_concat] at hlast
      rw [Option.some.inj hlast]
      exact congrArg (· + k) hstop
    · exact absurd (congrArg Span.stop (Option.some.inj hspan)).symm (hclause l u hpair hl hu)

/-- A text of one passage that moves to a statement further on is this statement. -/
theorem parse_of_moves {text : List Char} {init : List Lexeme} {fin : Lexeme} {p : Passage} {k : Nat}
    {s : RawStatement} (htext : IsPassage d text init fin)
    (hmoves : (IsPassage.passage d text init fin).Moves k p)
    (hresult : ((Session.ofText d source).attemptWhole p).result = .ok s) (hk : s.location = k) :
    (parse d text).success = true ∧ (parse d text).statements = [⟨s.node, 0, s.length⟩] := by
  have hvalue := Session.value?_attemptWhole_moves (Session.ofText d text)
    (Session.ofText d source) hmoves
  rw [Session.Attempt.value?, hresult] at hvalue
  obtain ⟨r, hr, hshift⟩ := Option.map_eq_some_iff.mp hvalue.symm
  have hvalues : Session.values d text = [some r] := by
    rw [Session.values, htext.attempts_eq hmoves.nonempty, List.map_singleton, hr]
  obtain rfl : r = ⟨s.node, 0, s.length⟩ := by
    rw [← hshift] at hk ⊢
    have hzero : r.location = 0 := Nat.add_eq_right.mp hk
    show r = ⟨r.node, 0, r.length⟩
    rw [← hzero]
  exact ⟨by rw [Session.success_eq, hvalues]; rfl, by rw [Session.statements_eq, hvalues]; rfl⟩

/-- **The text of a statement is this statement.**  Where nothing is left unterminated, the bytes
from the start of a statement to its end hold one statement, with the same tree, which takes up
all of them.  A statement that ends in a literal with Unicode escapes must not have a `UESCAPE`
clause there, which its bytes leave out. -/
theorem parse_slice {s : RawStatement}
    (hclosed : ∀ g ∈ (TokenStream.ofText d source).tokenize.2, g.isUnterminated = false)
    (hs : s ∈ (parse d source).statements)
    (hclause : ∀ t u, [t, u] <:+: (TokenStream.ofRaw d source).tokenize.1 →
      isEscaped t.kind = true → u.kind = .keyword .UESCAPE →
        t.span.stop ≠ s.location + s.length) :
    let slice := parse d (Span.charsIn source ⟨s.location, s.location + s.length⟩)
    slice.success = true ∧ slice.statements = [⟨s.node, 0, s.length⟩] := by
  have hraw := closed_rawLexemes hclosed
  have hends := endsOnce_rawLexemes d source
  obtain ⟨p, hp, hresult⟩ := Session.exists_passage_of_mem_statements hs
  have hlies : p.LiesIn (lexemes d source) :=
    liesIn_of_mem_passages (endsOnce_lexemes d source).segments hp
  obtain ⟨-, hlocation, hend⟩ := Session.bounds_of_attemptWhole hlies hresult
  obtain ⟨before, run, e, rest, hsplit, hread⟩ := exists_run_of_mem_passages hends.segments
    (fun l hl => inert_of_endsStatement hraw hl) hp
  have hinit : ∀ l ∈ before ++ run, l.kind ≠ .eof := by
    rw [hsplit, ← List.append_assoc] at hends
    exact hends.ne_eof
  -- the run is cut out of the text, and is resolved there as it was here
  obtain ⟨left, text, right, inner, hsource, hrun, hlexemes, hstart, hstop⟩ :=
    rawLexemes_slice hsplit (fun l hl => hinit l (List.mem_append_left _ hl))
      (fun l hl => hinit l (List.mem_append_right _ hl)) hread.nonempty
  obtain ⟨init, fin, htext, hmoves⟩ := moves_of_resolves hread hlies hrun hlexemes
  obtain ⟨hfirst, hlast⟩ := span_of_frames hread.frames hread.nonempty hrun hstart hstop (by
    intro l u hpair hl hu
    rw [← hend]
    refine hclause l.token u.token ?_ hl hu
    rw [TokenStream.tokenize_ofRaw, hsplit]
    have hwhole : [l, u] <:+: before ++ (run ++ e :: rest) :=
      (hpair.trans (List.prefix_append _ _).isInfix).trans (List.suffix_append _ _).isInfix
    exact hwhole.map Lexeme.token)
  have hslice : Span.charsIn source ⟨s.location, s.location + s.length⟩ = text := by
    rw [hend, hlocation, hfirst, hlast, hsource, Nat.add_comm (byteLength text)]
    exact charsIn_between left text right
  rw [hslice]
  exact parse_of_moves htext hmoves hresult (hlocation.trans hfirst)

/-- Two statements, of which each is the text under it. -/
theorem parse_slice_each :
    let source := "COMMIT ; select a".toList
    (parse .postgres source).statements.length = 2 ∧
      ∀ s ∈ (parse .postgres source).statements,
        (parse .postgres (Span.charsIn source ⟨s.location, s.location + s.length⟩)).statements
          = [⟨s.node, 0, s.length⟩] := by
  intro source
  have hclosed : ∀ g ∈ (TokenStream.ofText .postgres source).tokenize.2, g.isUnterminated = false := by
    decide +kernel
  have hplain : ∀ t ∈ (TokenStream.ofRaw .postgres source).tokenize.1, isEscaped t.kind = false := by
    decide +kernel
  refine ⟨by decide +kernel, fun s hs => (parse_slice hclosed hs fun t u hpair ht => ?_).2⟩
  -- there is no literal with Unicode escapes
  rw [hplain t (hpair.subset List.mem_cons_self)] at ht
  cases ht

end SqlSyntax
