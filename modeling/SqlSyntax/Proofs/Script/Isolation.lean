import Mathlib.Data.List.ReduceOption
import SqlSyntax.Proofs.Grammar.LocalStatement
import SqlSyntax.Proofs.Lexeme.Resolving
import SqlSyntax.Proofs.Script.Accounting

/-!
# Statements do not touch each other

A text of two parts with a semicolon between them holds the statements of the
first part, and behind them those of the second, further on.  Neither the errors
nor the nesting of one part reach the other.

## Main definitions

* `RawStatement.shift` — a statement further on.
* `Passage.Moves` — the same statement further on, with another end.

## Main results

* `value?_attemptWhole_moves` — the attempt at a statement comes out the same
  further on.
* `parse_append` — **the statements of a text of two parts are those of the parts.**
-/

namespace SqlSyntax

variable {k : Nat}

/-! ### Passages further on -/

theorem tokensOf_map_shift (ls : List Lexeme) :
    tokensOf (ls.map (Lexeme.shift k)) = (tokensOf ls).map (Token.shift k) := by
  simp only [tokensOf, List.map_map]
  rfl

theorem tokensOf_eq_of_alike {ls ls' : List Lexeme} (h : List.Forall₂ Lexeme.Alike ls ls') :
    tokensOf ls = tokensOf ls' := by
  induction h with
  | nil => rfl
  | cons hl _ ih => rw [tokensOf, tokensOf, List.map_cons, List.map_cons, hl.1]; exact congrArg _ ih

/-- The passage `p'` holds the statement of `p`, `k` bytes further on.  What ends
it may differ. -/
structure Passage.Moves (k : Nat) (p p' : Passage) : Prop where
  tokens : tokensOf p'.run = (tokensOf p.run).map (Token.shift k)
  nonempty : p.run ≠ []
  inside : ∀ l ∈ p.run, l.kind.endsStatement = false
  stop : p.stop.kind.endsStatement = true
  stop' : p'.stop.kind.endsStatement = true

/-- The tokens of the first run of a list of lexemes that a lexeme ends. -/
theorem tokensOf_takeWhile (ls : List Lexeme) :
    tokensOf (ls.takeWhile fun l => !l.kind.endsStatement)
      = (tokensOf ls).takeWhile fun t => !t.kind.endsStatement := by
  rw [tokensOf, tokensOf, List.takeWhile_map]
  rfl

section OfRest

variable {fin e : Lexeme} (he : e.kind.endsStatement = true)

include he

theorem ofRest_run_append (place : Nat) (init tail : List Lexeme) :
    (Passage.ofRest fin place (init ++ e :: tail)).run
      = init.takeWhile fun l => !l.kind.endsStatement := by
  simp only [Passage.ofRest]
  induction init with
  | nil => simp [he]
  | cons l init ih =>
    rw [List.cons_append, List.takeWhile_cons, List.takeWhile_cons, ih]

theorem ofRest_stop_append (place : Nat) (init tail : List Lexeme) :
    (Passage.ofRest fin place (init ++ e :: tail)).stop.kind.endsStatement = true := by
  simp only [Passage.ofRest]
  induction init with
  | nil => simp [he]
  | cons l init ih =>
    rw [List.cons_append, List.dropWhile_cons]
    split
    · exact ih
    · next hl => simpa using hl

end OfRest

section PassagesFrom

variable {fin fin' e e' : Lexeme}

/-- The statement at the start of lexemes with the same tokens further on. -/
theorem moves_ofRest (he : e.kind.endsStatement = true) (he' : e'.kind.endsStatement = true)
    {l l' : Lexeme} {init init' : List Lexeme} (hl : l.kind.endsStatement = false)
    (h : tokensOf (l' :: init') = (tokensOf (l :: init)).map (Token.shift k))
    (place place' : Nat) (tail tail' : List Lexeme) :
    (Passage.ofRest fin place (l :: init ++ e :: tail)).Moves k
      (Passage.ofRest fin' place' (l' :: init' ++ e' :: tail')) where
  tokens := by
    rw [ofRest_run_append he, ofRest_run_append he', tokensOf_takeWhile, tokensOf_takeWhile, h,
      List.takeWhile_map]
    rfl
  nonempty := by
    rw [ofRest_run_append he, List.takeWhile_cons]
    simp [hl]
  inside := by
    intro m hm
    rw [ofRest_run_append he] at hm
    simpa using List.mem_takeWhile_imp hm
  stop := ofRest_stop_append he place _ tail
  stop' := ofRest_stop_append he' place' _ tail'

/-- The passages of lexemes of which a part has the same tokens further on. -/
theorem passagesFrom_append (fin fin' : Lexeme) (he : e.kind.endsStatement = true)
    (he' : e'.kind.endsStatement = true) {init init' : List Lexeme}
    (h : tokensOf init' = (tokensOf init).map (Token.shift k)) (place place' : Nat)
    (fresh : Bool) (tail : List Lexeme) :
    ∃ ps, passagesFrom fin' place' fresh (init' ++ e' :: tail)
        = ps ++ passages fin' (place' + init'.length + 1) tail
      ∧ List.Forall₂ (Passage.Moves k) (passagesFrom fin place fresh (init ++ [e])) ps := by
  induction init generalizing init' place place' fresh with
  | nil =>
    obtain rfl : init' = [] := by simpa using h
    refine ⟨[], ?_, ?_⟩
    · rw [List.nil_append, passagesFrom, if_pos he']
      rfl
    · rw [List.nil_append, passagesFrom, if_pos he]
      exact .nil
  | cons l init ih =>
    cases init' with
    | nil => simp at h
    | cons l' init' =>
      have hl : l'.token = l.token.shift k := (List.cons.inj h).1
      have hkind : l'.kind = l.kind := by rw [Lexeme.kind, hl]; rfl
      have hlen : place' + (l' :: init').length + 1 = place' + 1 + init'.length + 1 := by
        rw [List.length_cons]
        omega
      rw [hlen, List.cons_append, List.cons_append, passagesFrom, passagesFrom, hkind]
      by_cases hends : l.kind.endsStatement = true
      · rw [if_pos hends, if_pos hends]
        exact ih (List.cons.inj h).2 (place + 1) (place' + 1) true
      rw [if_neg hends, if_neg hends]
      obtain ⟨ps, hps, hmoves⟩ := ih (List.cons.inj h).2 (place + 1) (place' + 1) false
      cases fresh with
      | false => exact ⟨ps, hps, hmoves⟩
      | true =>
        rw [if_pos rfl, if_pos rfl, hps]
        refine ⟨_ :: ps, rfl, .cons ?_ hmoves⟩
        exact moves_ofRest he he' (Bool.eq_false_iff.mpr hends) h place place' [] tail

end PassagesFrom

namespace Passage

theorem head?_tokensOf (p : Passage) (h : p.run ≠ []) :
    (tokensOf p.run).head? = some p.firstToken := by
  obtain ⟨l, ls, hrun⟩ := List.exists_cons_of_ne_nil h
  simp [firstToken, tokenAt, hrun]

theorem getLast?_tokensOf (p : Passage) (h : p.run ≠ []) :
    (tokensOf p.run).getLast? = some p.lastToken := by
  rw [List.getLast?_map, List.getLast?_eq_some_getLast h]
  simp [lastToken, List.getLastD_eq_getLast?, List.getLast?_eq_some_getLast h]

namespace Moves

variable {p p' : Passage}

theorem kinds_eq (h : p.Moves k p') : p'.kinds = p.kinds := by
  have := congrArg (List.map Token.kind) h.tokens
  simpa [kinds, tokensOf, Token.shift, Function.comp_def] using this

theorem nonempty' (h : p.Moves k p') : p'.run ≠ [] := by
  intro hrun
  have := h.tokens
  rw [hrun] at this
  simp [h.nonempty] at this

theorem firstToken_eq (h : p.Moves k p') : p'.firstToken = p.firstToken.shift k := by
  have := congrArg List.head? h.tokens
  rw [head?_tokensOf _ h.nonempty', List.head?_map, head?_tokensOf _ h.nonempty] at this
  exact Option.some.inj this

theorem lastToken_eq (h : p.Moves k p') : p'.lastToken = p.lastToken.shift k := by
  have := congrArg List.getLast? h.tokens
  rw [getLast?_tokensOf _ h.nonempty', List.getLast?_map, getLast?_tokensOf _ h.nonempty] at this
  exact Option.some.inj this

end Moves

end Passage

/-! ### Attempts further on -/

/-- A statement that stands `k` bytes further on. -/
def RawStatement.shift (k : Nat) (r : RawStatement) : RawStatement :=
  ⟨r.node, r.location + k, r.length⟩

namespace Session

/-- The attempt at a statement comes out the same further on. -/
theorem value?_attemptWhole_moves (s s' : Session) {p p' : Passage} (h : p.Moves k p') :
    (s'.attemptWhole p').value? = (s.attemptWhole p).value?.map (RawStatement.shift k) := by
  have hraw : ∀ n, rawStatement p' n = (rawStatement p n).shift k := by
    intro n
    simp only [rawStatement, h.firstToken_eq, h.lastToken_eq, RawStatement.shift, Token.shift,
      Nat.add_sub_add_right]
  let start : Cursor := { run := p.kinds, requested := max 1 (s.requested - p.place) }
  let start' : Cursor := { run := p'.kinds, requested := max 1 (s'.requested - p'.place) }
  have htwin : start.Twin start' := by
    refine ⟨h.kinds_eq.symm, rfl, fun j hj => ?_⟩
    obtain ⟨l, hl, rfl⟩ := List.mem_map.mp hj
    exact h.inside l hl
  have hb : (Boundary.mk p.stop.kind p.beyond).stop.endsStatement = true := h.stop
  have hb' : (Boundary.mk p'.stop.kind p'.beyond).stop.endsStatement = true := h.stop'
  have hagree := Parser.agree_run hb hb' Grammar.wholeStatement htwin
  simp only [Attempt.value?, attemptWhole, attempt]
  revert hagree
  generalize Grammar.wholeStatement.run _ start = o
  generalize Grammar.wholeStatement.run _ start' = o'
  intro hagree
  cases o with
  | ok n c =>
    cases o' with
    | ok n' c' =>
      rw [hagree.1]
      simp [outcomeResult, Except.map, Except.toOption, hraw]
    | error q c' => exact hagree.elim
  | error q c =>
    cases o' with
    | ok n' c' => exact hagree.elim
    | error q' c' => simp [outcomeResult, Except.map, Except.toOption]

/-- What the attempts at the statements of a text give, in order. -/
def values (d : Dialect) (source : List Char) : List (Option RawStatement) :=
  (ofText d source).attempts.map Attempt.value?

theorem values_eq (d : Dialect) (source : List Char) :
    values d source
      = ((passagesFrom (ofText d source).fin 0 true (SqlSyntax.lexemes d source)).map
          (ofText d source).attemptWhole).map Attempt.value? := rfl

theorem statements_eq (d : Dialect) (source : List Char) :
    (SqlSyntax.parse d source).statements = (values d source).reduceOption := by
  rw [values, List.reduceOption, List.filterMap_map]
  rfl

theorem success_eq (d : Dialect) (source : List Char) :
    (SqlSyntax.parse d source).success = (values d source).all Option.isSome := by
  rw [values, List.all_map]
  rfl

/-- Moved passages give the same values. -/
theorem values_of_moves (s s' : Session) {ps ps' : List Passage}
    (h : List.Forall₂ (Passage.Moves k) ps ps') :
    (ps'.map s'.attemptWhole).map Attempt.value?
      = ((ps.map s.attemptWhole).map Attempt.value?).map (Option.map (RawStatement.shift k)) := by
  induction h with
  | nil => rfl
  | cons hp _ ih =>
    simp only [List.map_cons, value?_attemptWhole_moves s s' hp]
    rw [ih]

theorem values_append {d : Dialect} {s₁ : List Char} (s₂ : List Char)
    (hclosed : Closed (rawLexemes d s₁)) :
    values d (s₁ ++ '\n' :: ';' :: s₂)
      = values d s₁ ++ (values d s₂).map (Option.map (RawStatement.shift (byteLength s₁ + 2))) := by
  let whole := ofText d (s₁ ++ '\n' :: ';' :: s₂)
  obtain ⟨init₁, init₂, h₁, h, halike⟩ := lexemes_append s₁ s₂ hclosed
  obtain ⟨before, fin, h₂, hfin, -⟩ := (endsOnce_lexemes d s₂).exists_append
  have hend : (endLexeme 0 s₁ []).kind.endsStatement = true := rfl
  have hsemicolon : (semicolonAt (byteLength s₁ + 1)).kind.endsStatement = true := rfl
  have hfin' : fin.kind.endsStatement = true := by rw [hfin]; rfl
  have hfin'' : (fin.shift (byteLength s₁ + 2)).kind.endsStatement = true := hfin'
  rw [h₂, List.map_append, List.map_singleton] at h
  -- the passages of the first part
  have htokens : tokensOf init₂ = (tokensOf init₁).map (Token.shift 0) := by
    rw [tokensOf_eq_of_alike halike]
    exact (List.map_id _).symm
  obtain ⟨ps₁, hps₁, hmoves₁⟩ := passagesFrom_append (ofText d s₁).fin whole.fin hend hsemicolon
    htokens 0 0 true
    (before.map (Lexeme.shift (byteLength s₁ + 2)) ++ [fin.shift (byteLength s₁ + 2)])
  -- the passages of the second part
  obtain ⟨ps₂, hps₂, hmoves₂⟩ := passagesFrom_append (ofText d s₂).fin whole.fin hfin' hfin''
    (tokensOf_map_shift before) 0 (0 + init₂.length + 1) true []
  have hpassages : passagesFrom whole.fin 0 true (SqlSyntax.lexemes d (s₁ ++ '\n' :: ';' :: s₂))
      = ps₁ ++ ps₂ := by
    rw [h, hps₁, passages, hps₂]
    exact congrArg (ps₁ ++ ·) (List.append_nil ps₂)
  have hzero : Option.map (RawStatement.shift 0) = id := by
    funext r
    cases r <;> rfl
  rw [values_eq, hpassages, List.map_append, List.map_append, values_of_moves (ofText d s₁) _ hmoves₁,
    values_of_moves (ofText d s₂) _ hmoves₂, ← h₁, ← h₂, hzero, List.map_id]
  rfl

/-! ### Errors -/

/-- The problems of the lexemes of a text. -/
def problems (ls : List Lexeme) : List LexicalProblem :=
  ls.flatMap fun l => l.notes.map Note.problem

theorem problems_map_shift (ls : List Lexeme) :
    problems (ls.map (Lexeme.shift k)) = problems ls := by
  induction ls with
  | nil => rfl
  | cons l ls ih =>
    rw [List.map_cons, problems, List.flatMap_cons, problems, List.flatMap_cons, ← problems,
      ← problems, ih]
    simp [Lexeme.shift, Note.shift, Function.comp_def]

theorem problems_eq_of_alike {ls ls' : List Lexeme} (h : List.Forall₂ Lexeme.Alike ls ls') :
    problems ls = problems ls' := by
  induction h with
  | nil => rfl
  | cons hl _ ih =>
    rw [problems, List.flatMap_cons, problems, List.flatMap_cons, ← problems, ← problems, ih, hl.2]

theorem problems_append {d : Dialect} {s₁ : List Char} (s₂ : List Char)
    (hclosed : Closed (rawLexemes d s₁)) :
    problems (SqlSyntax.lexemes d (s₁ ++ '\n' :: ';' :: s₂))
      = problems (SqlSyntax.lexemes d s₁) ++ problems (SqlSyntax.lexemes d s₂) := by
  obtain ⟨init₁, init₂, h₁, h, halike⟩ := lexemes_append s₁ s₂ hclosed
  have hfst : problems (init₁ ++ [endLexeme 0 s₁ []]) = problems init₁ := by
    simp [problems, endLexeme]
  rw [h, h₁, hfst, problems_eq_of_alike halike, problems, List.flatMap_append, List.flatMap_cons,
    ← problems, ← problems, problems_map_shift]
  rfl

theorem countP_diagnostics (ix : LineIndex) (ls : List Lexeme) :
    (ls.flatMap (Lexeme.diagnostics ix)).countP Diagnostic.isError
      = (problems ls).countP (·.severity = .error) := by
  induction ls with
  | nil => rfl
  | cons l ls ih =>
    rw [List.flatMap_cons, problems, List.flatMap_cons, ← problems, List.countP_append,
      List.countP_append, ih, Lexeme.diagnostics, List.countP_map, List.countP_map]
    rfl

theorem isSome_failure? (s : Session) (a : Attempt RawStatement) :
    (Attempt.failure? s a).isSome = a.value?.isNone := by
  unfold Attempt.failure? Attempt.value?
  cases a.result <;> rfl

/-- The errors of a text are those of its lexemes and those of the attempts that
failed. -/
theorem length_errors (d : Dialect) (source : List Char) :
    (SqlSyntax.parse d source).errors.length
      = (problems (SqlSyntax.lexemes d source)).countP (·.severity = .error)
        + (values d source).countP Option.isNone := by
  rw [(perm_errors d source).length_eq, List.length_append, tokenize_ofText,
    ← List.countP_eq_length_filter, countP_diagnostics, List.length_filterMap_eq_countP, values,
    List.countP_map]
  congr 2
  funext a
  exact isSome_failure? _ a

end Session

/-! ### Texts of two parts -/

theorem closed_rawLexemes {d : Dialect} {source : List Char}
    (h : ∀ g ∈ (TokenStream.ofText d source).tokenize.2, g.isUnterminated = false) :
    Closed (rawLexemes d source) := by
  intro l hl n hn
  have hmem : n ∈ (lexemes d source).flatMap Lexeme.notes :=
    (notes_sublist_resolve d false _).subset (List.mem_flatMap.mpr ⟨l, hl, hn⟩)
  obtain ⟨m, hm, hn⟩ := List.mem_flatMap.mp hmem
  have hg := h (n.diagnostic (LineIndex.ofText source)) (by
    rw [tokenize_ofText]
    exact List.mem_flatMap.mpr ⟨m, hm, List.mem_map.mpr ⟨n, hn, rfl⟩⟩)
  by_contra hun
  rw [isUnterminated_of_isUnclosed (Bool.not_eq_false _ ▸ hun)] at hg
  exact Bool.noConfusion hg

/-- **Statements do not touch each other.**  A text in which nothing is left
unterminated, a line break, a semicolon and another text hold the statements of
the first text and, further on, those of the second.  The whole succeeds if both
do, and has as many errors as both have. -/
theorem parse_append (d : Dialect) (s₁ s₂ : List Char)
    (h : ∀ g ∈ (TokenStream.ofText d s₁).tokenize.2, g.isUnterminated = false) :
    let whole := parse d (s₁ ++ '\n' :: ';' :: s₂)
    whole.statements
        = (parse d s₁).statements
          ++ (parse d s₂).statements.map (RawStatement.shift (byteLength s₁ + 2)) ∧
      whole.success = ((parse d s₁).success && (parse d s₂).success) ∧
      whole.errors.length = (parse d s₁).errors.length + (parse d s₂).errors.length := by
  have hclosed := closed_rawLexemes h
  have hvalues := Session.values_append s₂ hclosed
  refine ⟨?_, ?_, ?_⟩
  · rw [Session.statements_eq, Session.statements_eq, Session.statements_eq, hvalues,
      List.reduceOption_append, List.reduceOption_map]
  · rw [Session.success_eq, Session.success_eq, Session.success_eq, hvalues, List.all_append,
      List.all_map]
    congr 2
    funext r
    exact Option.isSome_map
  · rw [Session.length_errors, Session.length_errors, Session.length_errors, hvalues,
      Session.problems_append s₂ hclosed, List.countP_append, List.countP_append, List.countP_map]
    have hnone : Option.isNone ∘ Option.map (RawStatement.shift (byteLength s₁ + 2))
        = Option.isNone := by
      funext r
      exact Option.isNone_map
    rw [hnone]
    omega

/-- The statement behind one that fails is there. -/
theorem parse_append_commit :
    let s₁ := "COMMIT (".toList
    let s₂ := "COMMIT".toList
    let whole := parse .postgres (s₁ ++ '\n' :: ';' :: s₂)
    (∀ g ∈ (TokenStream.ofText .postgres s₁).tokenize.2, g.isUnterminated = false) ∧
      whole.statements
        = (parse .postgres s₁).statements
          ++ (parse .postgres s₂).statements.map (RawStatement.shift 10) ∧
      whole.success = false ∧ whole.errors.length = 1 := by
  have h : ∀ g ∈ (TokenStream.ofText .postgres "COMMIT (".toList).tokenize.2,
      g.isUnterminated = false := by
    decide +kernel
  obtain ⟨hstatements, hsuccess, herrors⟩ :=
    parse_append .postgres "COMMIT (".toList "COMMIT".toList h
  exact ⟨h, hstatements, hsuccess.trans (by decide +kernel), herrors.trans (by decide +kernel)⟩

end SqlSyntax
