import SqlSyntax.Grammar.Enclosed
import SqlSyntax.Proofs.Grammar.EnclosableExpression

/-!
# Queries in parentheses
-/

namespace SqlSyntax.Grammar

open SqlSyntax.Parser

/-! ### Output columns -/

instance : optionalLabel.Enclosable := by
  have hbare : (kind >>= fun k => if isBareLabel k = true then do
      return some (← label) else return none).Enclosable :=
    enclosable_kind (.inl rfl) fun _ => inferInstance
  unfold optionalLabel
  infer_instance

instance : outputColumn.Enclosable := by
  unfold outputColumn
  infer_instance

instance : optionalReturning.Enclosable := by
  unfold optionalReturning
  infer_instance

instance : columnToFill.Enclosable := by
  unfold columnToFill
  infer_instance

instance : assignment.Enclosable := by
  unfold assignment
  infer_instance

instance : assignments.Enclosable := by
  unfold assignments
  infer_instance

/-! ### Items of `FROM` -/

instance : enclosedSourceContent.Enclosable := by
  unfold enclosedSourceContent
  infer_instance

instance (lateral : Bool) (s : Select) : (derivedTable lateral s).Enclosable := by
  unfold derivedTable
  infer_instance

instance (lateral : Bool) : (enclosedItem lateral).Enclosable := by
  unfold enclosedItem
  refine Enclosable.bind inferInstance fun found => ?_
  split <;> infer_instance

instance : onlyTableName.Enclosable := by
  unfold onlyTableName
  infer_instance

instance : onlyTable.Enclosable := by
  unfold onlyTable
  infer_instance

instance (lateral : Bool) (function : List String) : (tableFunction lateral function).Enclosable := by
  unfold tableFunction
  infer_instance

instance : skipStar.Enclosable := by
  unfold skipStar
  infer_instance

instance (lateral : Bool) : (namedItem lateral).Enclosable := by
  unfold namedItem
  refine enclosable_index (fun m n => ?_) fun _ => Enclosable.bind inferInstance fun names => ?_
  · refine alike_bind _ fun names => alike_bind _ fun call => alike_ite (fun _ => Alike.refl _) fun _ => ?_
    exact alike_ite (fun _ => Alike.refl _) fun _ =>
      (alike_tableOfNames m n names).bind fun t => Alike.refl _
  · infer_instance

instance (lateral : Bool) : (plainItem lateral).Enclosable := by
  unfold plainItem
  infer_instance

instance : sourcePrimary.Enclosable := by
  unfold sourcePrimary
  infer_instance

instance : joinKind?.Enclosable := by
  unfold joinKind?
  refine enclosable_kind (.inl rfl) fun k => ?_
  split <;> infer_instance

instance (j : Join) : (joinCondition j).Enclosable := by
  unfold joinCondition
  infer_instance

instance (kind : JoinKind) (natural : Bool) (left : Node) : (joinedWith kind natural left).Enclosable := by
  unfold joinedWith
  infer_instance

instance (left : Node) : (naturalJoin left).Enclosable := by
  unfold naturalJoin
  refine Enclosable.bind inferInstance fun found => ?_
  split <;> infer_instance

instance (left : Node) : (crossJoin left).Enclosable := by
  unfold crossJoin
  infer_instance

instance (left : Node) : (moreJoins left).Enclosable := by
  have hplain : (joinKind? >>= fun found => match found with
      | some kind => do return some (← joinedWith kind false left)
      | none => return none).Enclosable := by
    refine Enclosable.bind inferInstance fun found => ?_
    split <;> infer_instance
  unfold moreJoins
  infer_instance

instance (left : Node) : (joins left).Enclosable := by
  unfold joins
  exact enclosable_iterate (turns_of_loopStep .joins) (fun _ => inferInstance) left

instance : source.Enclosable := by
  unfold source
  infer_instance

instance : sources.Enclosable := by
  unfold sources
  infer_instance

/-! ### Changes -/

instance : indexKey.Enclosable := by
  unfold indexKey
  exact enclosable_kind (.inl rfl) fun _ => inferInstance

instance : indexElement.Enclosable := by
  unfold indexElement
  infer_instance

instance : indexElements.Enclosable := by
  unfold indexElements
  infer_instance

instance : optionalColumns.Enclosable := by
  have hnext : (nextKind >>= fun k => if startsEnclosedQuery k = true then pure []
      else parenthesized (commaList columnToFill)).Enclosable :=
    enclosable_nextKind (Alike.refl _) fun _ => inferInstance
  unfold optionalColumns
  infer_instance

instance : insertedRows.Enclosable := by
  unfold insertedRows
  infer_instance

instance : optionalConflictTarget.Enclosable := by
  unfold optionalConflictTarget
  infer_instance

instance (target : Option ConflictTarget) : (conflictUpdate target).Enclosable := by
  unfold conflictUpdate
  refine enclosable_index (fun m n => alike_bind _ fun _ => ?_) fun _ => inferInstance
  exact alike_ite (fun _ => alike_fail _ _) fun _ => Alike.refl _

instance : onConflict.Enclosable := by
  unfold onConflict
  infer_instance

instance : insertedTable.Enclosable := by
  unfold insertedTable
  infer_instance

instance : insert.Enclosable := by
  unfold insert
  infer_instance

instance : changedTable.Enclosable := by
  unfold changedTable
  infer_instance

instance : changedTableWithAlias.Enclosable := by
  unfold changedTableWithAlias
  infer_instance

instance : update.Enclosable := by
  unfold update
  infer_instance

instance : delete.Enclosable := by
  unfold delete
  infer_instance

instance : change?.Enclosable := by
  unfold change?
  refine enclosable_kind (.inl rfl) fun k => ?_
  split <;> infer_instance

/-! ### Queries -/

instance : distinctKeys.Enclosable := by
  unfold distinctKeys
  infer_instance

instance : optionalDistinct.Enclosable := by
  unfold optionalDistinct
  infer_instance

instance : outputColumns.Enclosable := by
  unfold outputColumns
  refine enclosable_kind (.inl rfl) fun k => ?_
  split <;> infer_instance

instance : groupKeys.Enclosable := by
  unfold groupKeys
  infer_instance

instance : windowDefinition.Enclosable := by
  unfold windowDefinition
  infer_instance

instance : selection.Enclosable := by
  unfold selection
  infer_instance

instance : row.Enclosable := by
  unfold row
  infer_instance

instance : rows.Enclosable := by
  unfold rows
  refine enclosable_index (fun m n => alike_bind _ fun _ => alike_bind _ fun rs => ?_)
    fun _ => inferInstance
  exact alike_ite (fun _ => Alike.refl _) fun _ => alike_refuseSince m n _

instance : simpleQuery.Enclosable := by
  unfold simpleQuery
  refine enclosable_kind (.inl rfl) fun k => ?_
  split <;> infer_instance

instance : allOrDistinct.Enclosable := by
  unfold allOrDistinct
  infer_instance

instance (op : SetOp) (left : Select) (right : Parser Select) [right.Enclosable] :
    (combinedWith op left right).Enclosable := by
  unfold combinedWith
  infer_instance

instance (left : Select) : (moreIntersected left).Enclosable := by
  unfold moreIntersected
  infer_instance

instance : intersection.Enclosable := by
  unfold intersection
  exact Enclosable.bind inferInstance
    (enclosable_iterate (turns_of_loopStep .intersected) fun _ => inferInstance)

instance (op : SetOp) : (secondQuery op).Enclosable := by
  unfold secondQuery
  split <;> infer_instance

instance (left : Select) : (moreCombined left).Enclosable := by
  unfold moreCombined
  refine enclosable_kind (.inl rfl) fun k => ?_
  split <;> infer_instance

instance (first : Select) : (combinationOf first).Enclosable := by
  unfold combinationOf
  exact enclosable_iterate (turns_of_loopStep .combined) (fun _ => inferInstance) first

instance : combination.Enclosable := by
  unfold combination
  infer_instance

instance (s : Select) : (queryOrder s).Enclosable := by
  unfold queryOrder
  refine enclosable_index (fun m n => alike_bind _ fun found => ?_) fun _ => inferInstance
  refine alike_ite (fun _ => alike_bind _ fun _ => ?_) fun _ => Alike.refl _
  exact alike_ite (fun _ => Alike.refl _) fun _ => alike_fail _ _

instance : limitCount.Enclosable := by
  unfold limitCount
  infer_instance

/-- The place of a clause has a say in its problem only. -/
theorem alike_limit (m n : Nat) (s : Select) : (limit m s).Alike (limit n s) := by
  unfold limit
  refine alike_ite (fun _ => alike_fail _ _) fun _ => alike_bind _ fun count => ?_
  refine alike_bind _ fun comma => alike_ite (fun _ => ?_) fun _ => Alike.refl _
  exact alike_bind _ fun last => alike_fail _ _

theorem alike_offset (m n : Nat) (s : Select) : (offset m s).Alike (offset n s) := by
  unfold offset
  exact alike_ite (fun _ => alike_fail _ _) fun _ => Alike.refl _

theorem alike_fetch (m n : Nat) (s : Select) : (fetch m s).Alike (fetch n s) := by
  unfold fetch
  exact alike_ite (fun _ => alike_fail _ _) fun _ => Alike.refl _

instance (first : Nat) (s : Select) : (limit first s).Enclosable := by
  unfold limit
  infer_instance

instance (first : Nat) (s : Select) : (offset first s).Enclosable := by
  unfold offset
  infer_instance

instance : fetchCount.Enclosable := by
  unfold fetchCount
  refine enclosable_kind (.inl rfl) fun k => ?_
  split <;> infer_instance

instance (v w : Keyword) : (expectEither v w).Enclosable := by
  unfold expectEither
  infer_instance

instance : fetchStyle.Enclosable := by
  unfold fetchStyle
  infer_instance

instance (first : Nat) (s : Select) : (fetch first s).Enclosable := by
  unfold fetch
  infer_instance

instance : lockStrength.Enclosable := by
  unfold lockStrength
  refine enclosable_kind (.inl rfl) fun k => ?_
  split <;> infer_instance

instance : lockWait.Enclosable := by
  unfold lockWait
  infer_instance

instance : locking.Enclosable := by
  unfold locking
  infer_instance

instance (s : Select) : (moreClauses s).Enclosable := by
  unfold moreClauses
  refine enclosable_index (fun m n => alike_bind _ fun k => ?_) fun first => ?_
  · split
    · exact alike_bind _ fun _ => (alike_limit m n s).bind fun _ => Alike.refl _
    · exact alike_bind _ fun _ => (alike_offset m n s).bind fun _ => Alike.refl _
    · exact alike_bind _ fun _ => (alike_fetch m n s).bind fun _ => Alike.refl _
    · exact Alike.refl _
    · exact Alike.refl _
  · refine enclosable_kind (.inl rfl) fun k => ?_
    split <;> infer_instance

instance (s : Select) : (iterate moreClauses s).Enclosable :=
  enclosable_iterate (turns_of_loopStep .clauses) (fun _ => inferInstance) s

instance (s : Select) : (tail s).Enclosable := by
  unfold tail
  infer_instance

instance (s : Select) : (continued s).Enclosable := by
  unfold continued
  infer_instance

instance : materialization.Enclosable := by
  unfold materialization
  infer_instance

instance : cteBody.Enclosable := by
  unfold cteBody
  refine Enclosable.bind inferInstance fun found => ?_
  split <;> infer_instance

instance : cte.Enclosable := by
  unfold cte
  infer_instance

instance : ctes.Enclosable := by
  unfold ctes
  infer_instance

instance (w : With) : (queryAfter w).Enclosable := by
  unfold queryAfter
  refine enclosable_index (fun m n => alike_bind _ fun s => alike_bind _ fun s => ?_)
    fun _ => inferInstance
  exact alike_ite (fun _ => alike_fail _ _) fun _ => Alike.refl _

instance : queryWithClauses.Enclosable := by
  unfold queryWithClauses
  infer_instance

/-! ### Parentheses -/

instance (first : Node) : (enclosedItems first).Enclosable := by
  unfold enclosedItems
  refine Enclosable.bind inferInstance fun found => ?_
  split <;> infer_instance

instance (first : Node) : (enclosedRest first).Enclosable := by
  unfold enclosedRest
  infer_instance

/-- At the end of a text, the closing parenthesis is missing. -/
theorem stuck_enclosedRest (first : Node) : (enclosedRest first).Stuck :=
  stuck_bind_local fun _ => stuck_bind_local fun _ => stuck_bind_local fun _ => stuck_expect_close

instance (e : Enclosed) : (afterEnclosed e).Enclosable := by
  cases e with
  | item n => exact inferInstanceAs (enclosedRest n).Enclosable
  | query s => exact enclosable_kind (.inr (stuck_enclosedRest _)) fun _ => inferInstance

instance : enclosed.Enclosable := by
  unfold enclosed
  refine Enclosable.bind inferInstance fun _ => ?_
  exact enclosable_kind (.inl rfl) fun _ => inferInstance

/-- A query is told from an item by the token behind it, so the parenthesis that closes both
belongs to what follows. -/
theorem enclosable_afterEnclosedSource (e : Enclosed) :
    (afterEnclosedSource e >>= fun e => expect .rightParen >>= fun _ => pure e).Enclosable := by
  cases e with
  | item n =>
    show ((optionalAlias >>= fun a => joins (n.labelled a) >>= fun n => pure (Enclosed.item n))
      >>= fun e => expect .rightParen >>= fun _ => pure e).Enclosable
    infer_instance
  | query s =>
    rw [afterEnclosedSource, bind_assoc]
    refine enclosable_kind (.inr ?_) fun _ => inferInstance
    exact stuck_bind_local fun _ => stuck_expect_close

instance : enclosedSource.Enclosable := by
  unfold enclosedSource parenthesized enclosedSourceBody
  refine Enclosable.bind inferInstance fun _ => ?_
  rw [bind_assoc]
  refine enclosable_kind (.inl rfl) fun k => ?_
  split
  · infer_instance
  · split
    · rw [bind_assoc]
      exact Enclosable.bind inferInstance enclosable_afterEnclosedSource
    · infer_instance

instance (r : Rule) : r.body.Enclosable := by
  cases r with
  | expression above => exact inferInstanceAs (expressionAbove above).Enclosable
  | query => exact inferInstanceAs queryWithClauses.Enclosable
  | enclosed => exact inferInstanceAs enclosed.Enclosable
  | elements => exact inferInstanceAs elements.Enclosable
  | enclosedSource => exact inferInstanceAs enclosedSource.Enclosable

end SqlSyntax.Grammar
