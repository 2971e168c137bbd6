import SqlSyntax.Grammar.Enclosed
import SqlSyntax.Proofs.Grammar.TallyChange
import SqlSyntax.Proofs.Grammar.TallyExpression

/-!
# Queries keep the account

A query is in hand while the clauses behind it are read.  An order, a limit and an offset
may be read once only, so that none takes the place of another.

## Main results

* `tallies_selection`, `tallies_rows` — simple queries.
* `tallies_combinationOf` — queries combined.
* `tallies_tail` — the clauses behind a query.
* `tallies_queryWithClauses` — **queries hold the parameters that they are read from.**
* `tallies_enclosed`, `tallies_enclosedSource` — what parentheses hold.
-/

namespace SqlSyntax

namespace Select

/-- The parameters of a query are in its clauses. -/
theorem params_eq (s : Select) : s.params
    = total With.params s.ctes.toList + total Node.params (s.distinct.getD [])
      + total Target.params s.targets + total Node.params s.sources
      + total Node.params s.condition.toList + total Node.params s.groups
      + total Node.params s.having.toList + total Window.params s.windows
      + total (total Node.params) s.rows + total params s.left.toList
      + total params s.right.toList + total SortKey.params s.order
      + total Node.params s.offset.toList + total Node.params s.limit.toList := by
  rw [params, children]
  simp [add_assoc]

theorem params_combined (op : SetOp) (all : Bool) (left right : Select) :
    (combined op all left right).params = left.params + right.params := by
  rw [params_eq]
  simp [combined]

variable {s : Select}

theorem params_withOrder (h : s.order = []) (order : List SortKey) :
    { s with order := order }.params = s.params + total SortKey.params order := by
  rw [params_eq, params_eq s, h, total_nil]
  ac_rfl

theorem params_withLimit (h : s.limit = none) (style : LimitStyle) (count : Node) :
    { s with limit := some count, limitStyle := style }.params = s.params + count.params := by
  rw [params_eq, params_eq s, h]
  simp

theorem params_withOffset (h : s.offset = none) (count : Node) :
    { s with offset := some count }.params = s.params + count.params := by
  rw [params_eq, params_eq s, h]
  simp [add_right_comm]

theorem params_withLocks (s : Select) (locks : List Locking) :
    { s with locks := locks }.params = s.params := by
  rw [params_eq, params_eq s]

theorem params_withCtes (h : s.ctes = none) (w : With) :
    { s with ctes := some w }.params = w.params + s.params := by
  rw [params_eq, params_eq s, h]
  simp [add_assoc]

end Select

namespace Grammar

open SqlSyntax.Parser

/-! ### Selections -/

theorem tallies_distinctKeys : distinctKeys.Tallies (total Node.params) :=
  tallies_test_bind (tallies_parenthesized tallies_expressions) (tallies_pure rfl)

theorem tallies_optionalDistinct :
    optionalDistinct.Tallies fun o => total Node.params (o.getD []) :=
  tallies_test_bind (tallies_distinctKeys.trans fun _ => tallies_pure rfl)
    (quiet_bind fun _ => tallies_pure rfl)

theorem tallies_outputColumns : outputColumns.Tallies (total Target.params) :=
  tallies_still_bind fun _ =>
    tallies_ite (fun _ => tallies_pure rfl) fun _ => tallies_commaList tallies_outputColumn

theorem tallies_groupKeys : groupKeys.Tallies (total Node.params) :=
  quiet_bind fun _ => tallies_expressions

theorem tallies_windowDefinition : windowDefinition.Tallies Window.params :=
  quiet_bind fun _ => quiet_bind fun _ => tallies_windowInParens.trans fun _ => tallies_pure rfl

theorem tallies_selection : selection.Tallies Select.params := by
  refine tallies_optionalDistinct.bind fun distinct => tallies_outputColumns.bind fun targets => ?_
  refine (tallies_listAfter .FROM tallies_sources).bind fun items => ?_
  refine tallies_optionalCondition.bind fun condition => ?_
  refine (tallies_listAfter .GROUP tallies_groupKeys).bind fun groups => ?_
  refine (tallies_after .HAVING tallies_expression).bind fun having => ?_
  have hwindows := tallies_listAfter .WINDOW (tallies_commaList tallies_windowDefinition)
  exact hwindows.bind fun windows => tallies_pure (by simp [Select.params_eq])

/-! ### Rows of values -/

theorem tallies_row : row.Tallies (total Node.params) :=
  tallies_parenthesized (tallies_commaList tallies_valueOrDefault)

theorem tallies_rows : rows.TalliesFrom 1 0 Select.params := by
  refine tallies_still_bind fun first => tallies_skip_bind ?_
  refine (tallies_commaList tallies_row).bind fun rs => ?_
  refine tallies_ite (fun _ => tallies_pure ?_) fun _ => tallies_refuseSince _ _
  simp [Select.params_eq]

/-! ### Combinations -/

theorem tallies_simpleQuery : simpleQuery.Tallies Select.params := by
  refine tallies_kind_bind (fun m => tallies_refuse _) fun k _ => ?_
  split
  · exact tallies_skip_bind tallies_selection
  · exact tallies_rows
  · exact (tallies_parenthesized tallies_query).of_le (Nat.zero_le 1)
  · exact tallies_refuse _

instance : allOrDistinct.Quiet := by
  unfold allOrDistinct
  infer_instance

theorem tallies_combinedWith (op : SetOp) (left : Select) {right : Parser Select}
    (hright : right.Tallies Select.params) :
    (combinedWith op left right).TalliesFrom 0 left.params Select.params :=
  quiet_bind fun all => hright.bind fun s => tallies_pure (Select.params_combined op all left s).symm

theorem tallies_moreIntersected (left : Select) :
    (moreIntersected left).TalliesFrom 0 left.params fun found => (found.getD left).params :=
  tallies_test_bind
    ((tallies_combinedWith .intersect left tallies_simpleQuery).trans fun _ => tallies_pure rfl)
    (tallies_pure rfl)

theorem tallies_intersection : intersection.Tallies Select.params :=
  tallies_simpleQuery.trans (tallies_iterate tallies_moreIntersected)

theorem tallies_secondQuery : ∀ op, (secondQuery op).Tallies Select.params
  | .intersect => tallies_simpleQuery
  | .none | .union | .except => tallies_intersection

theorem tallies_moreCombined (left : Select) :
    (moreCombined left).TalliesFrom 0 left.params fun found => (found.getD left).params := by
  refine tallies_kind_bind (fun m => tallies_pure rfl) fun k _ => ?_
  split
  · exact tallies_pure rfl
  · refine tallies_skip_bind ?_
    exact (tallies_combinedWith _ left (tallies_secondQuery _)).trans fun _ => tallies_pure rfl

theorem tallies_combinationOf (first : Select) :
    (combinationOf first).TalliesFrom 0 first.params Select.params :=
  tallies_iterate tallies_moreCombined first

theorem tallies_combination : combination.Tallies Select.params :=
  tallies_simpleQuery.trans tallies_combinationOf

/-! ### Clauses behind a query -/

theorem tallies_queryOrder (s : Select) :
    (queryOrder s).TalliesFrom 0 s.params Select.params := by
  refine quiet_bind fun first => tallies_test_bind (quiet_bind fun _ => ?_) (tallies_pure rfl)
  -- an order that is in hand already is an error
  refine tallies_ite (fun h => ?_) fun _ => tallies_fail _
  refine (tallies_commaList tallies_sortKey).bind fun order => tallies_pure ?_
  exact (Select.params_withOrder (List.isEmpty_iff.mp h) order).symm

theorem tallies_limitCount : limitCount.Tallies Node.params :=
  tallies_test_bind (tallies_pure (by simp)) tallies_expression

theorem tallies_limit (first : Nat) (s : Select) :
    (limit first s).TalliesFrom 0 s.params Select.params := by
  refine tallies_ite (fun _ => tallies_fail _) fun h => tallies_limitCount.bind fun count => ?_
  refine tallies_test_bind (quiet_bind fun _ => tallies_fail _) (tallies_pure ?_)
  exact (Select.params_withLimit (by simpa using h) .count count).symm

theorem tallies_offset (first : Nat) (s : Select) :
    (offset first s).TalliesFrom 0 s.params Select.params := by
  refine tallies_ite (fun _ => tallies_fail _) fun h => tallies_expression.bind fun count => ?_
  have hparams := (Select.params_withOffset (s := s) (by simpa using h) count).symm
  exact tallies_test_bind (tallies_pure hparams) (quiet_bind fun _ => tallies_pure hparams)

theorem tallies_fetchCount : fetchCount.Tallies Node.params := by
  refine tallies_still_bind fun k => ?_
  split
  · exact tallies_pure (by simp)
  · exact tallies_pure (by simp)
  · exact tallies_operand _

instance (v w : Keyword) : (expectEither v w).Quiet := by
  unfold expectEither
  infer_instance

instance : fetchStyle.Quiet := by
  unfold fetchStyle
  infer_instance

theorem tallies_fetch (first : Nat) (s : Select) :
    (fetch first s).TalliesFrom 0 s.params Select.params := by
  refine tallies_ite (fun _ => tallies_fail _) fun h => quiet_bind fun _ => ?_
  refine tallies_fetchCount.bind fun count => quiet_bind fun _ => quiet_bind fun style => ?_
  exact tallies_pure (Select.params_withLimit (by simpa using h) style count).symm

instance : lockStrength.Quiet := by
  unfold lockStrength
  refine quiet_kind (fun m => inferInstanceAs (unexpected _).Quiet) fun k _ => ?_
  split <;> infer_instance

instance : lockWait.Quiet := by
  unfold lockWait
  infer_instance

instance : locking.Quiet := by
  unfold locking
  infer_instance

theorem tallies_moreClauses (s : Select) :
    (moreClauses s).TalliesFrom 0 s.params fun found => (found.getD s).params := by
  refine quiet_bind fun first => tallies_kind_bind (fun m => tallies_pure rfl) fun k _ => ?_
  split
  -- `LIMIT`, `OFFSET`, `FETCH` and `FOR`
  · exact tallies_skip_bind ((tallies_limit first s).trans fun _ => tallies_pure rfl)
  · exact tallies_skip_bind ((tallies_offset first s).trans fun _ => tallies_pure rfl)
  · exact tallies_skip_bind ((tallies_fetch first s).trans fun _ => tallies_pure rfl)
  · refine tallies_skip_bind (quiet_bind fun l => tallies_pure ?_)
    exact (s.params_withLocks (s.locks ++ [l])).symm
  · exact tallies_pure rfl

theorem tallies_tail (s : Select) : (tail s).TalliesFrom 0 s.params Select.params := by
  refine (tallies_queryOrder s).trans fun s => (tallies_iterate tallies_moreClauses s).trans fun s => ?_
  exact tallies_ite (fun _ => quiet_bind fun _ => tallies_fail _) fun _ => tallies_pure rfl

theorem tallies_continued (s : Select) : (continued s).TalliesFrom 0 s.params Select.params :=
  (tallies_combinationOf s).trans tallies_tail

/-! ### Common table expressions -/

instance : materialization.Quiet := by
  unfold materialization
  infer_instance

theorem tallies_cteBody : cteBody.Tallies Node.params := by
  refine tallies_change?.trans fun found => ?_
  cases found with
  | some c => exact tallies_pure (add_zero _)
  | none => exact tallies_query.trans fun s => tallies_pure (by simp)

theorem tallies_cte : cte.Tallies Cte.params := by
  refine quiet_bind fun s => quiet_bind fun columns => quiet_bind fun _ => quiet_bind fun m => ?_
  exact (tallies_parenthesized tallies_cteBody).trans fun n => tallies_pure rfl

theorem tallies_ctes : ctes.Tallies With.params :=
  quiet_bind fun _ => (tallies_commaList tallies_cte).trans fun _ => tallies_pure rfl

/-! ### Rules -/

theorem tallies_queryAfter (w : With) : (queryAfter w).TalliesFrom 0 w.params Select.params := by
  refine quiet_bind fun first => ?_
  rw [← bind_assoc]
  refine (tallies_combination.trans tallies_tail).bind fun s => ?_
  refine tallies_ite (fun _ => tallies_fail _) fun h => tallies_pure ?_
  exact (Select.params_withCtes (by simpa using h) w).symm

theorem tallies_queryWithClauses : queryWithClauses.Tallies Select.params :=
  tallies_test_bind (tallies_ctes.trans tallies_queryAfter)
    (tallies_combination.trans tallies_tail)

/-! ### Parentheses in an expression -/

theorem tallies_enclosedItems (first : Node) :
    (enclosedItems first).TalliesFrom 0 first.params Enclosed.params := by
  have hitems := tallies_itemsAfter .comma tallies_expression [first]
  rw [total_cons, total_nil, add_zero] at hitems
  refine hitems.trans fun fields => quiet_bind fun _ => ?_
  split
  · exact tallies_pure (by simp [Enclosed.params])
  · exact tallies_pure (by simp [Enclosed.params])

theorem tallies_enclosedRest (first : Node) :
    (enclosedRest first).TalliesFrom 0 first.params Enclosed.params :=
  (tallies_indirection first).trans fun n => (tallies_operations 0 n).trans tallies_enclosedItems

theorem tallies_afterEnclosed : ∀ e, (afterEnclosed e).TalliesFrom 0 e.params Enclosed.params
  | .item n => tallies_enclosedRest n
  | .query s => by
    have hrest := tallies_enclosedRest (Enclosed.query s).operand
    rw [Enclosed.params_operand] at hrest
    refine tallies_kind_bind (fun m => hrest) fun k _ => ?_
    refine tallies_ite (fun _ => ?_) fun _ => tallies_ite (fun _ => ?_) fun _ => ?_
    · -- the inner query is the first of several, or has clauses behind its parentheses
      refine TalliesFrom.of_le ?_ (Nat.zero_le 1)
      exact (tallies_continued s).trans fun s => quiet_bind fun _ => tallies_pure rfl
    · exact tallies_skip_bind (tallies_pure rfl)
    · exact hrest.of_le (Nat.zero_le 1)

theorem tallies_enclosed : enclosed.Tallies Enclosed.params := by
  refine quiet_bind fun _ => tallies_still_bind fun k => ?_
  refine tallies_ite (fun _ => ?_) fun _ => tallies_ite (fun _ => ?_) fun _ => ?_
  · exact tallies_query.trans fun s => quiet_bind fun _ => tallies_pure rfl
  · exact tallies_enclosedContent.trans tallies_afterEnclosed
  · exact tallies_expression.trans tallies_enclosedItems

/-! ### Parentheses among the items of `FROM` -/

theorem tallies_afterEnclosedSource :
    ∀ e, (afterEnclosedSource e).TalliesFrom 0 e.params Enclosed.params
  | .item n => by
    refine quiet_bind fun label => ?_
    have hjoins := tallies_joins (n.labelled label)
    rw [Node.params_labelled] at hjoins
    exact hjoins.trans fun n => tallies_pure rfl
  | .query s => by
    refine tallies_still_bind fun k => tallies_ite (fun _ => ?_) fun _ => ?_
    · exact (tallies_continued s).trans fun s => tallies_pure rfl
    · refine (tallies_derivedTable false s).trans fun n => ?_
      exact (tallies_joins n).trans fun n => tallies_pure rfl

theorem tallies_enclosedSourceBody : enclosedSourceBody.Tallies Enclosed.params := by
  refine tallies_still_bind fun k => ?_
  refine tallies_ite (fun _ => ?_) fun _ => tallies_ite (fun _ => ?_) fun _ => ?_
  · exact tallies_query.trans fun s => tallies_pure rfl
  · exact tallies_enclosedSourceContent.trans tallies_afterEnclosedSource
  · exact tallies_source.trans fun n => tallies_pure rfl

theorem tallies_enclosedSource : enclosedSource.Tallies Enclosed.params :=
  tallies_parenthesized tallies_enclosedSourceBody

end Grammar
end SqlSyntax
