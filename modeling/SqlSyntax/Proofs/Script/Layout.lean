import SqlSyntax.Proofs.Script.Isolation

/-!
# Layout makes no difference

The statements of a text depend on the kinds of its tokens only.  Where the tokens
stand, what lies between them and how they are spelled has no say in the trees.

## Main definitions

* `Passage.SameKinds` — passages of tokens of the same kinds, each with an end.

## Main results

* `node?_attemptWhole` — attempts at passages of the same kinds give the same tree.
* `parse_eq_of_kinds` — **texts with the same kinds of tokens hold the same
  statements.**
-/

namespace SqlSyntax

/-! ### Passages of the same kinds -/

/-- The passages hold tokens of the same kinds, and each ends where a statement does. -/
structure Passage.SameKinds (p p' : Passage) : Prop where
  kinds : p.kinds = p'.kinds
  inside : ∀ k ∈ p.kinds, k.endsStatement = false
  stop : p.stop.kind.endsStatement = true
  stop' : p'.stop.kind.endsStatement = true

section Passages

variable {fin fin' : Lexeme}

/-- A passage ends where a statement does. -/
theorem stop_ofRest (hfin : fin.kind.endsStatement = true) (place : Nat) (ls : List Lexeme) :
    (Passage.ofRest fin place ls).stop.kind.endsStatement = true := by
  simp only [Passage.ofRest]
  induction ls with
  | nil => exact hfin
  | cons l ls ih =>
    rw [List.dropWhile_cons]
    split
    · exact ih
    · next hl => simpa using hl

theorem kinds_ofRest (fin : Lexeme) (place : Nat) (ls : List Lexeme) :
    (Passage.ofRest fin place ls).kinds
      = (ls.map Lexeme.kind).takeWhile fun k => !k.endsStatement := by
  rw [Passage.kinds, Passage.ofRest, List.takeWhile_map]
  rfl

theorem sameKinds_ofRest (hfin : fin.kind.endsStatement = true)
    (hfin' : fin'.kind.endsStatement = true) {ls ls' : List Lexeme}
    (h : ls.map Lexeme.kind = ls'.map Lexeme.kind) (place place' : Nat) :
    (Passage.ofRest fin place ls).SameKinds (Passage.ofRest fin' place' ls') where
  kinds := by rw [kinds_ofRest, kinds_ofRest, h]
  inside := by
    intro k hk
    rw [kinds_ofRest] at hk
    simpa using List.mem_takeWhile_imp hk
  stop := stop_ofRest hfin place ls
  stop' := stop_ofRest hfin' place' ls'

/-- Lexemes of the same kinds fall into passages of the same kinds. -/
theorem sameKinds_passagesFrom (hfin : fin.kind.endsStatement = true)
    (hfin' : fin'.kind.endsStatement = true) {ls ls' : List Lexeme}
    (h : ls.map Lexeme.kind = ls'.map Lexeme.kind) (place place' : Nat) (fresh : Bool) :
    List.Forall₂ Passage.SameKinds (passagesFrom fin place fresh ls)
      (passagesFrom fin' place' fresh ls') := by
  induction ls generalizing ls' place place' fresh with
  | nil =>
    obtain rfl : ls' = [] := by simpa using h.symm
    exact .nil
  | cons l ls ih =>
    cases ls' with
    | nil => simp at h
    | cons l' ls' =>
      obtain ⟨hkind, hrest⟩ := List.cons.inj h
      rw [passagesFrom, passagesFrom, ← hkind]
      by_cases hends : l.kind.endsStatement = true
      · rw [if_pos hends, if_pos hends]
        exact ih hrest (place + 1) (place' + 1) true
      rw [if_neg hends, if_neg hends]
      cases fresh with
      | false => exact ih hrest (place + 1) (place' + 1) false
      | true =>
        rw [if_pos rfl, if_pos rfl]
        exact .cons (sameKinds_ofRest hfin hfin' h place place')
          (ih hrest (place + 1) (place' + 1) false)

end Passages

/-! ### Attempts -/

namespace Session

/-- The tree of an attempt that did not fail. -/
def Attempt.node? (a : Attempt RawStatement) : Option Node :=
  a.value?.map RawStatement.node

/-- Attempts at passages of the same kinds give the same tree, or fail both. -/
theorem node?_attemptWhole (s s' : Session) {p p' : Passage} (h : p.SameKinds p') :
    (s.attemptWhole p).node? = (s'.attemptWhole p').node? := by
  let start : Cursor := { run := p.kinds, requested := max 1 (s.requested - p.place) }
  let start' : Cursor := { run := p'.kinds, requested := max 1 (s'.requested - p'.place) }
  -- how much has been asked for differs, which no parser can tell
  have htwin : start.Twin start' := ⟨h.kinds, rfl, h.inside⟩
  have hb : (Boundary.mk p.stop.kind p.beyond).stop.endsStatement = true := h.stop
  have hb' : (Boundary.mk p'.stop.kind p'.beyond).stop.endsStatement = true := h.stop'
  have hagree := Parser.agree_run hb hb' Grammar.wholeStatement htwin
  simp only [Attempt.node?, Attempt.value?, attemptWhole, attempt]
  revert hagree
  generalize Grammar.wholeStatement.run _ start = o
  generalize Grammar.wholeStatement.run _ start' = o'
  intro hagree
  cases o with
  | ok n c =>
    cases o' with
    | ok n' c' =>
      rw [hagree.1]
      rfl
    | error q' c' => exact hagree.elim
  | error q c =>
    cases o' with
    | ok n' c' => exact hagree.elim
    | error q' c' => rfl

theorem map_node_values_eq (s s' : Session) {ps ps' : List Passage}
    (h : List.Forall₂ Passage.SameKinds ps ps') :
    (ps.map s.attemptWhole).map Attempt.node? = (ps'.map s'.attemptWhole).map Attempt.node? := by
  induction h with
  | nil => rfl
  | cons hp _ ih =>
    simp only [List.map_cons, node?_attemptWhole s s' hp]
    rw [ih]

/-- The trees of the attempts at the statements of a text, in order. -/
def trees (d : Dialect) (source : List Char) : List (Option Node) :=
  (ofText d source).attempts.map Attempt.node?

theorem map_node_statements (d : Dialect) (source : List Char) :
    (SqlSyntax.parse d source).statements.map RawStatement.node
      = (trees d source).reduceOption := by
  rw [statements_eq, ← List.reduceOption_map, values, List.map_map]
  rfl

theorem success_eq_trees (d : Dialect) (source : List Char) :
    (SqlSyntax.parse d source).success = (trees d source).all Option.isSome := by
  rw [success_eq, values, trees, List.all_map, List.all_map]
  congr 1
  funext a
  exact Option.isSome_map.symm

/-- The kinds of the tokens of a text say which trees its statements have. -/
theorem trees_eq_of_kinds {d d' : Dialect} {source source' : List Char}
    (h : (SqlSyntax.lexemes d source).map Lexeme.kind
      = (SqlSyntax.lexemes d' source').map Lexeme.kind) :
    trees d source = trees d' source' :=
  map_node_values_eq _ _ (sameKinds_passagesFrom rfl rfl h 0 0 true)

end Session

/-! ### Texts -/

theorem kinds_tokenize (d : Dialect) (source : List Char) :
    (TokenStream.ofText d source).tokenize.1.map Token.kind
      = (lexemes d source).map Lexeme.kind := by
  rw [tokenize_ofText, List.map_map]
  rfl

/-- **Layout makes no difference.**  Two texts, each in its own dialect, whose tokens
have the same kinds in the same order hold the same statements: both succeed or
neither does, and the trees of the statements are the same. -/
theorem parse_eq_of_kinds (d d' : Dialect) (source source' : List Char)
    (h : (TokenStream.ofText d source).tokenize.1.map Token.kind
      = (TokenStream.ofText d' source').tokenize.1.map Token.kind) :
    (parse d source).success = (parse d' source').success ∧
      (parse d source).statements.map RawStatement.node
        = (parse d' source').statements.map RawStatement.node := by
  rw [kinds_tokenize, kinds_tokenize] at h
  have htrees := Session.trees_eq_of_kinds h
  rw [Session.success_eq_trees, Session.success_eq_trees, Session.map_node_statements,
    Session.map_node_statements, htrees]
  exact ⟨rfl, rfl⟩

/-- The same statement on one line, and on three lines with comments, other spellings
and backslashes in its strings. -/
theorem parse_eq_of_kinds_select :
    let d : Dialect := ⟨"legacy", false, true, 63⟩
    let source := "select A, 'it''s', 16 from t".toList
    let source' := "SELECT a /* the name */, 'it\\'s'\n, 0x10 FROM\n\"t\" -- a table".toList
    (TokenStream.ofText .postgres source).tokenize.1.map Token.kind
        = (TokenStream.ofText d source').tokenize.1.map Token.kind ∧
      (parse .postgres source).success = (parse d source').success ∧
      (parse .postgres source).statements.map RawStatement.node
        = (parse d source').statements.map RawStatement.node := by
  intro d source source'
  have h : (TokenStream.ofText .postgres source).tokenize.1.map Token.kind
      = (TokenStream.ofText d source').tokenize.1.map Token.kind := by
    decide +kernel
  exact ⟨h, parse_eq_of_kinds .postgres d source source' h⟩

end SqlSyntax
