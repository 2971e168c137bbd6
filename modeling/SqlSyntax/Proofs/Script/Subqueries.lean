import SqlSyntax.Proofs.Grammar.Surrounded
import SqlSyntax.Proofs.Script.Enclosure

/-!
# Subqueries

A text that is a query is the same query in parentheses, in any place where a query can stand.
Three rules read parentheses: those around an operand, those around an item of `FROM`, and
those that hold a query only.  The first two guess what the parentheses hold.  Those of a
predicate look at one word only, and take a query that starts with a parenthesis for something
else.

## Main definitions

* `SubqueryPlace` — the places in small statements where a query can stand.
* `PredicatePlace` — the places in predicates where a query or something else can stand.

## Main results

* `parse_subquery` — **a text that is a query is this query in every place.**
* `parse_predicate` — a text that is a query is this query in predicates too, unless it starts
  with a parenthesis.
-/

namespace SqlSyntax

open Grammar

variable {d : Dialect} {q : List Char} {s : Select} {k : TokenKind} {ks : List TokenKind}

/-! ### Texts in front of a query -/

theorem precedes_leftParen (d : Dialect) : Precedes d "(".toList [.leftParen] :=
  (precedes_nil d).begins fun _ => begins_symbol (by decide)

/-- A token in front of a space. -/
theorem Precedes.spaced {word rest : String} (h : Precedes d rest.toList ks)
    (hw : IsToken d word.toList k) : Precedes d (word ++ " " ++ rest).toList (k :: ks) := by
  have htext : (word ++ " " ++ rest).toList = word.toList ++ ' ' :: rest.toList := by
    rw [String.toList_append, String.toList_append, List.append_assoc]
    rfl
  rw [htext]
  exact (h.blank rfl).token hw (by decide) (by decide)

theorem isToken_word {word : String} (w : Keyword) (h : w.text = word) :
    IsToken d word.toList (.keyword w) := by
  rw [← h]
  exact (isToken_keyword w).1

/-- A name that needs no quotes. -/
theorem isToken_bareName {name : String} (hlookup : Keyword.lookup name.toList = none)
    (hbare : Quoted.isBareName name.toList = true)
    (hlength : byteLength name.toList ≤ d.maxNameLength) : IsToken d name.toList (.name name) := by
  have hbegins := begins_bareName (d := d) (t := []) hbare hlength partsOff_nil.leavesWord.leavesName
  rwa [hlookup, Option.elim_none, String.ofList_toList] at hbegins

theorem isToken_select : IsToken .postgres "SELECT".toList (.keyword .SELECT) :=
  isToken_word .SELECT (by decide +kernel)

/-! ### Subqueries -/

/-- The places in small statements where a query can stand in parentheses. -/
inductive SubqueryPlace
  /-- An operand, as its only value. -/
  | value
  /-- Behind `EXISTS`. -/
  | existence
  /-- Behind `ARRAY`. -/
  | array
  /-- An item of `FROM`. -/
  | item
  /-- A common table expression. -/
  | common
  deriving DecidableEq, Repr

namespace SubqueryPlace

/-- The text in front of the query. -/
def before : SubqueryPlace → String
  | value => "SELECT ("
  | existence => "SELECT EXISTS ("
  | array => "SELECT ARRAY("
  | item => "SELECT 1 FROM ("
  | common => "WITH c AS ("

/-- The text behind the closing parenthesis. -/
def behind : SubqueryPlace → String
  | item => " AS s"
  | common => " SELECT 1"
  | _ => ""

/-- The tree of the statement with the query `s`. -/
def statement (p : SubqueryPlace) (s : Select) : Select :=
  match p with
  | value => { targets := [⟨none, some (.subquery { use := .scalar, query := s })⟩] }
  | existence => { targets := [⟨none, some (.subquery { use := .existence, query := s })⟩] }
  | array => { targets := [⟨none, some (.subquery { use := .array, query := s })⟩] }
  | item =>
    { targets := [⟨none, some (.integer 1)⟩]
      sources := [.derivedTable ⟨false, s, some ⟨"s", []⟩⟩] }
  | common =>
    { targets := [⟨none, some (.integer 1)⟩]
      ctes := some ⟨[⟨"c", [], .unspecified, .select s⟩], false⟩ }

/-- The tokens in front of the opening parenthesis. -/
def leading : SubqueryPlace → List TokenKind
  | value => [.keyword .SELECT]
  | existence => [.keyword .SELECT, .keyword .EXISTS]
  | array => [.keyword .SELECT, .keyword .ARRAY]
  | item => [.keyword .SELECT, .integer 1, .keyword .FROM]
  | common => [.keyword .WITH, .name "c", .keyword .AS]

/-- The tokens behind the closing parenthesis. -/
def trailing : SubqueryPlace → List TokenKind
  | item => [.keyword .AS, .name "s"]
  | common => [.keyword .SELECT, .integer 1]
  | _ => []

theorem precedes_before (p : SubqueryPlace) :
    Precedes .postgres p.before.toList (p.leading ++ [.leftParen]) := by
  have hparen := precedes_leftParen .postgres
  cases p with
  | value =>
    have htext : before value = "SELECT" ++ " " ++ "(" := by decide +kernel
    rw [htext]
    exact hparen.spaced isToken_select
  | existence =>
    have htext : before existence = "SELECT" ++ " " ++ ("EXISTS" ++ " " ++ "(") := by decide +kernel
    rw [htext]
    exact (hparen.spaced (isToken_word .EXISTS (by decide +kernel))).spaced isToken_select
  | array =>
    have htext : before array = "SELECT" ++ " " ++ ("ARRAY" ++ "(") := by decide +kernel
    have harray : Precedes .postgres ("ARRAY" ++ "(").toList [.keyword .ARRAY, .leftParen] := by
      rw [String.toList_append]
      exact hparen.token (isToken_word .ARRAY (by decide +kernel)) (by decide) (by decide)
    rw [htext]
    exact harray.spaced isToken_select
  | item =>
    have htext : before item = "SELECT" ++ " " ++ ("1" ++ " " ++ ("FROM" ++ " " ++ "(")) := by
      decide +kernel
    have hone : IsToken .postgres "1".toList (.integer 1) :=
      isToken_integer (n := 1) ⟨by decide, by decide⟩
    have hfrom : IsToken .postgres "FROM".toList (.keyword .FROM) :=
      isToken_word .FROM (by decide +kernel)
    rw [htext]
    exact ((hparen.spaced hfrom).spaced hone).spaced isToken_select
  | common =>
    have htext : before common = "WITH" ++ " " ++ ("c" ++ " " ++ ("AS" ++ " " ++ "(")) := by
      decide +kernel
    have hwith : IsToken .postgres "WITH".toList (.keyword .WITH) :=
      isToken_word .WITH (by decide +kernel)
    have hname : IsToken .postgres "c".toList (.name "c") :=
      isToken_bareName (by decide +kernel) (by decide +kernel) (by decide)
    have has : IsToken .postgres "AS".toList (.keyword .AS) := isToken_word .AS (by decide +kernel)
    rw [htext]
    exact ((hparen.spaced has).spaced hname).spaced hwith

/-- What stands around the query. -/
def enclosure (p : SubqueryPlace) : Enclosure where
  before := p.before
  behind := p.behind
  leading := p.leading
  trailing := p.trailing
  precedes := p.precedes_before
  settled := by cases p <;> rfl
  gist_behind := by cases p <;> decide +kernel
  inner := by cases p <;> decide

/-- The statement in whose tokens the query `s` is found. -/
theorem finds (p : SubqueryPlace) {depth : Nat} {c e : Cursor} (hc : c.Inside)
    (hrun : queryWithClauses.runWith .ofText (Rule.run .ofText depth) c = .ok s e)
    (hend : e.run = []) :
    wholeStatement.Finds (p.enclosure.tokens c.run) (.select (p.statement s)) [] := by
  -- what the query alone is read as, all three rules find in front of the closing parenthesis
  have hclosing : Parser.Closing (.rightParen :: p.trailing) := .inr rfl
  have hclose : e.run ++ .rightParen :: p.trailing = .rightParen :: p.trailing := by
    rw [hend, List.nil_append]
  have hquery : query.Finds (c.run ++ .rightParen :: p.trailing) s (.rightParen :: p.trailing) := by
    have hfinds := finds_query (Parser.finds_of_run hclosing hc hrun)
    rwa [hclose] at hfinds
  have henclosed := guesses_enclosed.finds hclosing hc hrun hclose
  have hsource := guesses_enclosedSource.finds hclosing hc hrun hclose
  have hnone : (listAfter .FROM sources).Finds [] [] [] := finds_listAfter_other TokenKind.noConfusion
  have hone (ts : List TokenKind) (hts : endsOutput (firstOf ts) = true) :
      expression.Finds (.integer 1 :: ts) (.integer 1) ts :=
    finds_expression (finds_primary_integer 1 ts) rfl hts
  refine finds_wholeStatement ?_
  cases p with
  | value =>
    have hvalue := finds_expression (finds_primary_enclosed henclosed rfl) rfl rfl
    exact finds_statement_select (finds_selection hvalue ⟨rfl, by decide⟩ rfl hnone) rfl
  | existence =>
    have hexists := finds_expression (finds_primary_exists hquery) rfl rfl
    exact finds_statement_select (finds_selection hexists ⟨rfl, by decide⟩ rfl hnone) rfl
  | array =>
    have harray := finds_expression (finds_primary_array hquery rfl) rfl rfl
    exact finds_statement_select (finds_selection harray ⟨rfl, by decide⟩ rfl hnone) rfl
  | item =>
    have hitems : (listAfter .FROM sources).Finds _ _ [] :=
      finds_listAfter (finds_commaList_one (finds_source_derived hsource) TokenKind.noConfusion)
    exact finds_statement_select (finds_selection (hone _ rfl) ⟨rfl, by decide⟩ rfl hitems) rfl
  | common =>
    have hstart : startsQuery (firstOf (c.run ++ .rightParen :: trailing common)) = true ∨
        firstOf (c.run ++ .rightParen :: trailing common) = .leftParen := by
      rcases queryWithClauses_ok hrun with hstart | ⟨_, e, _, _, _, hopen, _⟩
      · exact .inl (firstOf_append rfl hstart _)
      · exact .inr (by rw [hopen]; rfl)
    have hselection := finds_selection (hone [] rfl) ⟨rfl, by decide⟩ rfl hnone
    exact finds_statement_with (finds_ctes_one hquery hstart TokenKind.noConfusion) hselection rfl rfl

end SubqueryPlace

/-- **A text that is a query is this query in every place where one can stand**, unless the
whole text nests too deeply. -/
theorem parse_subquery (p : SubqueryPlace)
    (hsemicolon : ∀ t ∈ (TokenStream.ofText .postgres q).tokenize.1, t.kind ≠ .semicolon)
    (h : (parse .postgres q).IsStatement (.select s)) :
    (parse .postgres (p.enclosure.text q)).IsStatement (.select (p.statement s)) ∨
      (parse .postgres (p.enclosure.text q)).ExceedsDepth := by
  obtain ⟨run, stop, hpassage, depth, c, c', hc, hinside, hrun, hend⟩ :=
    exists_run_of_query hsemicolon h.statements
  have hfinds := p.finds hinside hrun hend
  rw [hc] at hfinds
  exact p.enclosure.parse_text hpassage (isQuiet_of_isClean h.clean) hfinds

/-- The query that a statement is. -/
def Node.select? : Node → Option Select
  | select s => some s
  | _ => none

theorem Node.eq_of_select? {n : Node} (h : n.select? = some s) : n = .select s := by
  cases n with
  | select s' => exact congrArg Node.select (Option.some.inj h)
  | _ => cases h

/-- Parentheses around the first of two queries do not mislead the rule for items of `FROM`. -/
theorem parse_subquery_union :
    let q := "(SELECT 1) UNION SELECT 2 -- both".toList
    ∃ s : Select, s.op = .union ∧
      (∀ t ∈ (TokenStream.ofText .postgres q).tokenize.1, t.kind ≠ .semicolon) ∧
      (parse .postgres q).IsStatement (.select s) ∧
      (parse .postgres (SubqueryPlace.item.enclosure.text q)).IsStatement
        (.select (SubqueryPlace.item.statement s)) := by
  intro q
  -- one decision, so that the text is read once
  obtain ⟨hop, hclean, hsemicolon, hdepth⟩ :
      (parse .postgres q).statements.map (·.node.select?.map Select.op) = [some .union] ∧
      (parse .postgres q).isClean = true ∧
      (∀ t ∈ (TokenStream.ofText .postgres q).tokenize.1, t.kind ≠ .semicolon) ∧
      ¬ ∃ g ∈ (parse .postgres (SubqueryPlace.item.enclosure.text q)).diagnostics,
        g.message = "stack depth limit exceeded" := by
    decide +kernel
  obtain ⟨r, hr, hnode⟩ := List.map_eq_singleton_iff.mp hop
  obtain ⟨s, hs, hop⟩ := Option.map_eq_some_iff.mp hnode
  have hq : (parse .postgres q).IsStatement (.select s) := by
    refine ⟨hclean, ?_⟩
    rw [hr, List.map_singleton, Node.eq_of_select? hs]
  exact ⟨s, hop, hsemicolon, hq, (parse_subquery .item hsemicolon hq).resolve_right hdepth⟩

/-! ### Predicates -/

/-- The places in predicates where a query can stand in parentheses, in which other things can
stand too. -/
inductive PredicatePlace
  /-- Behind `IN`. -/
  | inList
  /-- Behind an operator and `ANY`. -/
  | any
  /-- Behind an operator and `ALL`. -/
  | all
  deriving DecidableEq, Repr

namespace PredicatePlace

/-- The text in front of the query. -/
def before : PredicatePlace → String
  | inList => "SELECT x IN ("
  | any => "SELECT x = ANY ("
  | all => "SELECT x = ALL ("

/-- The tokens of the operator in front of the parentheses. -/
def operator : PredicatePlace → List TokenKind
  | inList => [.keyword .IN]
  | any => [.eq, .keyword .ANY]
  | all => [.eq, .keyword .ALL]

/-- The predicate on the query `s`. -/
def subquery (p : PredicatePlace) (s : Select) : Subquery :=
  let x := some (Node.ofNames ["x"])
  match p with
  | inList => { use := .forAny, test := x, query := s }
  | any => { use := .forAny, test := x, op := some "=", query := s }
  | all => { use := .forAll, test := x, op := some "=", query := s }

/-- The tree of the statement with the query `s`. -/
def statement (p : PredicatePlace) (s : Select) : Select :=
  { targets := [⟨none, some (.subquery (p.subquery s))⟩] }

theorem precedes_before (p : PredicatePlace) :
    Precedes .postgres p.before.toList
      ((.keyword .SELECT :: .name "x" :: p.operator) ++ [.leftParen]) := by
  have hx : IsToken .postgres "x".toList (.name "x") :=
    isToken_bareName (by decide +kernel) (by decide +kernel) (by decide)
  have hspaced (w : Keyword) : Precedes .postgres (w.text ++ " " ++ "(").toList
      [.keyword w, .leftParen] := (precedes_leftParen .postgres).spaced (isToken_word w rfl)
  have heq : IsToken .postgres "=".toList .eq := by
    have hchars : operatorChars "=".toList = "=".toList := by decide +kernel
    exact isToken_operatorChars hchars (by decide)
  cases p with
  | inList =>
    have htext : before inList = "SELECT" ++ " " ++ ("x" ++ " " ++ (Keyword.IN.text ++ " " ++ "(")) := by
      decide +kernel
    rw [htext]
    exact ((hspaced .IN).spaced hx).spaced isToken_select
  | any =>
    have htext : before any
        = "SELECT" ++ " " ++ ("x" ++ " " ++ ("=" ++ " " ++ (Keyword.ANY.text ++ " " ++ "("))) := by
      decide +kernel
    rw [htext]
    exact (((hspaced .ANY).spaced heq).spaced hx).spaced isToken_select
  | all =>
    have htext : before all
        = "SELECT" ++ " " ++ ("x" ++ " " ++ ("=" ++ " " ++ (Keyword.ALL.text ++ " " ++ "("))) := by
      decide +kernel
    rw [htext]
    exact (((hspaced .ALL).spaced heq).spaced hx).spaced isToken_select

/-- What stands around the query. -/
def enclosure (p : PredicatePlace) : Enclosure where
  before := p.before
  behind := ""
  leading := .keyword .SELECT :: .name "x" :: p.operator
  trailing := []
  precedes := p.precedes_before
  settled := by cases p <;> rfl
  gist_behind := by decide +kernel
  inner := List.forall_mem_nil _

/-- The statement in whose tokens the query `s` is found. -/
theorem finds (p : PredicatePlace) {ts : List TokenKind} (hstart : startsQuery (firstOf ts) = true)
    (h : query.Finds (ts ++ [.rightParen]) s [.rightParen]) :
    wholeStatement.Finds (p.enclosure.tokens ts) (.select (p.statement s)) [] := by
  have hstart : startsQuery (firstOf (ts ++ [.rightParen])) = true := firstOf_append rfl hstart _
  have hnone : (listAfter .FROM sources).Finds [] [] [] := finds_listAfter_other TokenKind.noConfusion
  have hpredicate : expression.Finds (.name "x" :: (p.operator ++ .leftParen :: (ts ++ [.rightParen])))
      (.subquery (p.subquery s)) [] := by
    cases p with
    | inList =>
      exact finds_expression_operation (finds_primary_name "x" rfl) rfl rfl (by decide) (by decide)
        (finds_operation_in hstart h) rfl
    | any =>
      have hall : withAll? (.keyword .ANY) = some false := rfl
      exact finds_expression_operation (finds_primary_name "x" rfl) rfl rfl (by decide) (by decide)
        (finds_operation_quantified hall hstart h) rfl
    | all =>
      have hall : withAll? (.keyword .ALL) = some true := rfl
      exact finds_expression_operation (finds_primary_name "x" rfl) rfl rfl (by decide) (by decide)
        (finds_operation_quantified hall hstart h) rfl
  refine finds_wholeStatement ?_
  exact finds_statement_select (finds_selection hpredicate ⟨rfl, by decide⟩ rfl hnone) rfl

end PredicatePlace

/-- **A text that is a query is this query in predicates too, unless it starts with a
parenthesis** or the whole text nests too deeply.  Predicates look at the first token only, so
that they take `(SELECT 1) UNION SELECT 2` for a list. -/
theorem parse_predicate (p : PredicatePlace)
    (hsemicolon : ∀ t ∈ (TokenStream.ofText .postgres q).tokenize.1, t.kind ≠ .semicolon)
    (hparen : ∀ t ∈ (TokenStream.ofText .postgres q).tokenize.1.head?, t.kind ≠ .leftParen)
    (h : (parse .postgres q).IsStatement (.select s)) :
    (parse .postgres (p.enclosure.text q)).IsStatement (.select (p.statement s)) ∨
      (parse .postgres (p.enclosure.text q)).ExceedsDepth := by
  obtain ⟨run, stop, hpassage, depth, c, c', hc, hinside, hrun, hend⟩ :=
    exists_run_of_query hsemicolon h.statements
  have hquery : query.Finds (c.run ++ [.rightParen]) s [.rightParen] := by
    have hclosing : Parser.Closing [.rightParen] := .inr rfl
    have hfinds := finds_query (Parser.finds_of_run hclosing hinside hrun)
    rwa [hend, List.nil_append] at hfinds
  -- every other query starts with a word, which predicates know
  have hstart : startsQuery (firstOf c.run) = true := by
    rcases queryWithClauses_ok hrun with hstart | ⟨_, e, _, _, _, hopen, _⟩
    · exact hstart
    · obtain ⟨l, run', rfl, hl, -⟩ := List.map_eq_cons_iff.mp (hc.symm.trans hopen)
      refine absurd hl (hparen l.token ?_)
      rw [tokenize_ofText, hpassage.lexemes_eq]
      rfl
  have hfinds := p.finds hstart hquery
  rw [hc] at hfinds
  exact p.enclosure.parse_text hpassage (isQuiet_of_isClean h.clean) hfinds

/-- With a parenthesis in front, the union is no query to a predicate. -/
example :
    (parse .postgres
      (PredicatePlace.inList.enclosure.text "(SELECT 1) UNION SELECT 2".toList)).isClean = false := by
  decide +kernel

end SqlSyntax
