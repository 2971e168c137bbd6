import SqlSyntax.Proofs.Grammar.PlainExpression
import SqlSyntax.Script

/-!
# Output columns that are read

The output columns of a query are expressions that are plain if they are simple, or all
columns.  The clauses behind a query leave its output columns as they are, and a
combination of queries has none of its own.

## Main definitions

* `Select.PlainIf` — the output columns of a query are as they are read.
* `Node.QueryIf` — the same of a statement, if it is a query.
* `Node.NoQuery` — the statements that are none.
* `Node.IsDefinition` — the statements that define objects and parameters.
* `OtherStatements` — what holds of all statements that are no query.

## Main results

* `tail_targets` — clauses behind a query keep its output columns.
* `body_plain` — every rule gives what it is known to give.
* `statement_yields` — what holds of every statement.
* `statement_plain` — **the output columns of a statement.**
-/

namespace SqlSyntax

/-- The output columns of the query are as they are read. -/
def Select.PlainIf (q : Prop) (s : Select) : Prop :=
  ∀ t ∈ s.targets, t.PlainIf q

/-- If the statement is a query, its output columns are as they are read. -/
def Node.QueryIf (q : Prop) (n : Node) : Prop :=
  ∀ s, n = .select s → s.PlainIf q

/-- The statement is no query. -/
def Node.NoQuery (n : Node) : Prop :=
  ∀ s, n ≠ .select s

theorem Node.NoQuery.queryIf {n : Node} (h : n.NoQuery) (q : Prop) : n.QueryIf q :=
  fun s hs => absurd hs (h s)

/-- A statement that defines an object or a parameter. -/
def Node.IsDefinition : Node → Prop
  | .createTable .. | .createView .. | .createIndex .. | .setting .. | .showSetting .. => True
  | _ => False

namespace Grammar

open SqlSyntax.Parser

variable {q : Prop} {s left : Select}

theorem query_plain : query.Yields (plainly q) (Select.PlainIf q) :=
  yields_query

/-! ### Selections -/

theorem outputColumn_plain : outputColumn.Yields (plainly q) (Target.PlainIf q) := by
  unfold outputColumn
  refine yields_bind_any fun star => yields_ite (fun _ => ?_) fun _ => ?_
  · exact yields_pure (forall_mem_some (.inl rfl))
  · refine expression_plain.bind fun value hvalue => ?_
    exact yields_bind_any fun name => yields_pure (forall_mem_some (.inr hvalue))

theorem selection_plain : selection.Yields (plainly q) (Select.PlainIf q) := by
  have hcolumns : outputColumns.Yields (plainly q) fun ts => ∀ t ∈ ts, t.PlainIf q := by
    unfold outputColumns
    refine yields_bind_any fun k => ?_
    refine yields_ite (fun _ => yields_pure (List.forall_mem_nil _)) fun _ => ?_
    exact yields_commaList_mem outputColumn_plain
  unfold selection
  refine yields_bind_any fun distinct => hcolumns.bind fun targets htargets => ?_
  refine yields_bind_any fun items => yields_bind_any fun condition => ?_
  refine yields_bind_any fun groups => yields_bind_any fun having => ?_
  exact yields_bind_any fun windows => yields_pure htargets

theorem rows_plain : rows.Yields (plainly q) (Select.PlainIf q) := by
  unfold rows
  refine yields_bind_any fun first => yields_bind_any fun _ => yields_bind_any fun rs => ?_
  exact yields_ite (fun _ => yields_pure nofun) fun _ => yields_refuseSince _ _

theorem simpleQuery_plain : simpleQuery.Yields (plainly q) (Select.PlainIf q) := by
  unfold simpleQuery
  refine yields_bind_any fun k => ?_
  split
  · exact yields_bind_any fun _ => selection_plain
  · exact rows_plain
  · exact yields_parenthesized query_plain
  · exact yields_unexpected _

/-! ### Combinations -/

/-- A combination of queries has no output columns of its own. -/
theorem combinedWith_plain (op : SetOp) (left : Select) (right : Parser Select) :
    (combinedWith op left right).Yields (plainly q) (Select.PlainIf q) := by
  unfold combinedWith
  exact yields_bind_any fun all => yields_bind_any fun right => yields_pure nofun

theorem combinationOf_plain {first : Select} (hfirst : first.PlainIf q) :
    (combinationOf first).Yields (plainly q) (Select.PlainIf q) := by
  refine yields_iterate hfirst fun left _ => ?_
  unfold moreCombined
  refine yields_bind_any fun k => ?_
  split
  · exact yields_pure forall_mem_none
  · refine yields_bind_any fun _ => (combinedWith_plain _ left _).bind fun s hs => ?_
    exact yields_pure (forall_mem_some hs)

theorem combination_plain : combination.Yields (plainly q) (Select.PlainIf q) := by
  unfold combination
  exact simpleQuery_plain.bind fun s hs => combinationOf_plain hs

/-! ### Clauses behind a query -/

variable {K : Known}

theorem queryOrder_targets (s : Select) :
    (queryOrder s).Yields K fun s' => s'.targets = s.targets := by
  unfold queryOrder
  refine yields_bind_any fun first => yields_bind_any fun found => ?_
  refine yields_ite (fun _ => ?_) fun _ => yields_pure rfl
  refine yields_bind_any fun _ => yields_ite (fun _ => ?_) fun _ => yields_fail _
  exact yields_bind_any fun order => yields_pure rfl

theorem limit_targets (first : Nat) (s : Select) :
    (limit first s).Yields K fun s' => s'.targets = s.targets := by
  unfold limit
  refine yields_ite (fun _ => yields_fail _) fun _ => ?_
  refine yields_bind_any fun count => yields_bind_any fun comma => ?_
  refine yields_ite (fun _ => ?_) fun _ => yields_pure rfl
  exact yields_bind_any fun _ => yields_fail _

theorem offset_targets (first : Nat) (s : Select) :
    (offset first s).Yields K fun s' => s'.targets = s.targets := by
  unfold offset
  refine yields_ite (fun _ => yields_fail _) fun _ => yields_bind_any fun count => ?_
  refine yields_bind_any fun rows => yields_ite (fun _ => yields_pure rfl) fun _ => ?_
  exact yields_bind_any fun _ => yields_pure rfl

theorem fetch_targets (first : Nat) (s : Select) :
    (fetch first s).Yields K fun s' => s'.targets = s.targets := by
  unfold fetch
  refine yields_ite (fun _ => yields_fail _) fun _ => yields_bind_any fun _ => ?_
  refine yields_bind_any fun count => yields_bind_any fun _ => ?_
  exact yields_bind_any fun style => yields_pure rfl

theorem moreClauses_targets (s : Select) :
    (moreClauses s).Yields K fun o => ∀ s' ∈ o, s'.targets = s.targets := by
  have hsome {p : Parser Select} (hp : p.Yields K fun s' => s'.targets = s.targets) :
      (do return some (← p) : Parser (Option Select)).Yields K
        fun o => ∀ s' ∈ o, s'.targets = s.targets :=
    hp.bind fun s' hs' => yields_pure (forall_mem_some hs')
  unfold moreClauses
  refine yields_bind_any fun first => yields_bind_any fun k => ?_
  split
  · exact yields_bind_any fun _ => hsome (limit_targets first s)
  · exact yields_bind_any fun _ => hsome (offset_targets first s)
  · exact yields_bind_any fun _ => hsome (fetch_targets first s)
  · exact yields_bind_any fun _ => yields_bind_any fun l => yields_pure (forall_mem_some rfl)
  · exact yields_pure forall_mem_none

/-- The clauses behind a query keep its output columns. -/
theorem tail_targets (s : Select) : (tail s).Yields K fun s' => s'.targets = s.targets := by
  have hclauses {s₁ : Select} (h₁ : s₁.targets = s.targets) :
      (iterate moreClauses s₁).Yields K fun s' => s'.targets = s.targets :=
    yields_iterate h₁ fun s₂ h₂ =>
      (moreClauses_targets s₂).mono fun o ho s' hs' => (ho s' hs').trans h₂
  unfold tail
  refine (queryOrder_targets s).bind fun s₁ h₁ => (hclauses h₁).bind fun s' hs' => ?_
  refine yields_ite (fun _ => ?_) fun _ => yields_pure hs'
  exact yields_bind_any fun _ => yields_fail _

theorem tail_plain (hs : s.PlainIf q) : (tail s).Yields (plainly q) (Select.PlainIf q) :=
  (tail_targets s).mono fun _ hs' t ht => hs t (hs' ▸ ht)

/-! ### Rules -/

theorem queryAfter_plain (w : With) : (queryAfter w).Yields (plainly q) (Select.PlainIf q) := by
  unfold queryAfter
  refine yields_bind_any fun first => combination_plain.bind fun s hs => ?_
  refine (tail_plain hs).bind fun s hs => ?_
  exact yields_ite (fun _ => yields_fail _) fun _ => yields_pure hs

theorem queryWithClauses_plain : queryWithClauses.Yields (plainly q) (Select.PlainIf q) := by
  unfold queryWithClauses
  refine yields_bind_any fun found => yields_ite (fun _ => ?_) fun _ => ?_
  · exact yields_bind_any fun w => queryAfter_plain w
  · exact combination_plain.bind fun s hs => tail_plain hs

/-- Every rule gives what it is known to give, if the rules do that it refers to. -/
theorem body_plain (r : Rule) : r.body.Yields (plainly q) ((plainly q).value r) := by
  cases r with
  | expression above => exact expressionAbove_plain above
  | query => exact queryWithClauses_plain
  | enclosed => exact enclosed_plain
  | elements => exact elements_plain
  | enclosedSource => exact yields_trivial _

/-! ### Statements -/

theorem create_isDefinition : create.Yields K Node.IsDefinition := by
  have htable (p : Persistence) : (createTable p).Yields K Node.IsDefinition :=
    yields_bind_any fun _ => yields_bind_any fun _ => yields_bind_any fun _ => yields_pure trivial
  have hview (p : Persistence) (replace : Bool) :
      (createView p replace).Yields K Node.IsDefinition :=
    yields_bind_any fun _ => yields_bind_any fun _ => yields_bind_any fun _ =>
      yields_bind_any fun _ => yields_pure trivial
  have hindex (unique : Bool) : (createIndex unique).Yields K Node.IsDefinition := by
    unfold createIndex
    iterate 9
      refine yields_bind_any fun _ => ?_
    exact yields_pure trivial
  unfold create
  refine yields_bind_any fun replace => yields_bind_any fun p => yields_bind_any fun w => ?_
  split
  · exact yields_bind_any fun _ => htable _
  · exact yields_bind_any fun _ => hview _ _
  · exact yields_bind_any fun _ => hindex _
  · exact yields_bind_any fun _ => yields_bind_any fun _ => hindex _
  · exact yields_misplaced

theorem setting_isDefinition : setting.Yields K Node.IsDefinition := by
  unfold setting
  refine yields_bind_any fun loc => yields_bind_any fun zone => yields_ite (fun _ => ?_) fun _ => ?_
  · refine yields_bind_any fun _ => yields_bind_any fun _ => yields_bind_any fun k => ?_
    split
    · exact yields_bind_any fun _ => yields_pure trivial
    · exact yields_bind_any fun _ => yields_pure trivial
    · exact yields_bind_any fun _ => yields_pure trivial
  · refine yields_bind_any fun s => yields_bind_any fun _ => yields_bind_any fun default => ?_
    refine yields_ite (fun _ => yields_pure trivial) fun _ => ?_
    exact yields_bind_any fun _ => yields_pure trivial

/-- `P` holds of all statements that are no query. -/
structure OtherStatements (K : Known) (P : Node → Prop) : Prop where
  change : ∀ c : Change, P c.node
  definition : ∀ n : Node, n.IsDefinition → P n
  drop : Grammar.drop.Yields K fun s => P (.drop s)
  truncate : Grammar.truncate.Yields K fun s => P (.truncate s)
  transaction : ∀ t, (Grammar.transaction t).Yields K fun s => P (.transaction s)

variable {P Q : Node → Prop}

theorem OtherStatements.mono (h : OtherStatements K P) (hPQ : ∀ n, P n → Q n) :
    OtherStatements K Q where
  change c := hPQ _ (h.change c)
  definition n hn := hPQ n (h.definition n hn)
  drop := h.drop.mono fun _ => hPQ _
  truncate := h.truncate.mono fun _ => hPQ _
  transaction t := (h.transaction t).mono fun _ => hPQ _

theorem statementOfWord_yields (h : OtherStatements K P) (w : Keyword) :
    (statementOfWord w).Yields K P := by
  unfold statementOfWord
  split
  · exact yields_bind_any fun _ => create_isDefinition.mono h.definition
  · exact yields_bind_any fun _ => h.drop.bind fun s hs => yields_pure hs
  · exact yields_bind_any fun _ => h.truncate.bind fun s hs => yields_pure hs
  · exact yields_bind_any fun _ => setting_isDefinition.mono h.definition
  · refine yields_bind_any fun _ => yields_bind_any fun all => ?_
    refine yields_ite (fun _ => yields_pure (h.definition _ trivial)) fun _ => ?_
    exact yields_bind_any fun _ => yields_pure (h.definition _ trivial)
  · refine yields_bind_any fun _ => yields_bind_any fun all => ?_
    refine yields_ite (fun _ => yields_pure (h.definition _ trivial)) fun _ => ?_
    exact yields_bind_any fun _ => yields_pure (h.definition _ trivial)
  · unfold transactionStatement
    split
    · exact yields_bind_any fun _ => (h.transaction _).bind fun s hs => yields_pure hs
    · exact yields_misplaced

theorem otherStatement_yields (h : OtherStatements K P) : otherStatement.Yields K P := by
  unfold otherStatement
  refine yields_bind_any fun o => ?_
  split
  · exact yields_pure (h.change _)
  · refine yields_bind_any fun k => ?_
    split
    · exact statementOfWord_yields h _
    · exact yields_misplaced

/-- What holds of queries and of all other statements holds of statements. -/
theorem statement_yields (h : OtherStatements K P) (hquery : query.Yields K fun s => P (.select s))
    (hafter : ∀ w, (queryAfter w).Yields K fun s => P (.select s)) : statement.Yields K P := by
  have hselect {p : Parser Select} (hp : p.Yields K fun s => P (.select s)) :
      (do return Node.select (← p) : Parser Node).Yields K P :=
    hp.bind fun s hs => yields_pure hs
  unfold statement
  refine yields_bind_any fun k => ?_
  split
  iterate 3
    · exact hselect hquery
  · refine yields_bind_any fun _ => yields_bind_any fun w => yields_bind_any fun o => ?_
    split
    · exact yields_pure (h.change _)
    · exact hselect (hafter w)
  · exact otherStatement_yields h

theorem wholeStatement_yields (h : statement.Yields K P) : wholeStatement.Yields K P := by
  unfold wholeStatement
  refine h.bind fun n hn => yields_bind_any fun k => ?_
  exact yields_ite (fun _ => yields_pure hn) fun _ => yields_misplaced

theorem noQuery_change (c : Change) : c.node.NoQuery := by
  cases c <;> exact nofun

theorem noQuery_others : OtherStatements K Node.NoQuery where
  change := noQuery_change
  definition n hn s heq := by
    rw [heq] at hn
    exact hn
  drop := (yields_trivial _).mono fun _ _ => nofun
  truncate := (yields_trivial _).mono fun _ _ => nofun
  transaction _ := (yields_trivial _).mono fun _ _ => nofun

/-- A statement that starts with no word of a query is no query. -/
theorem otherStatement_noQuery : otherStatement.Yields K Node.NoQuery :=
  otherStatement_yields noQuery_others

/-- The output columns of a statement that is a query. -/
theorem statement_plain : statement.Yields (plainly q) (Node.QueryIf q) := by
  have hsame (s : Select) (hs : s.PlainIf q) : (Node.select s).QueryIf q := by
    intro s' heq
    cases heq
    exact hs
  exact statement_yields (noQuery_others.mono fun n hn => hn.queryIf q) (query_plain.mono hsame)
    fun w => (queryAfter_plain w).mono hsame

end Grammar
end SqlSyntax
