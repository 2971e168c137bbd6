import SqlSyntax.Grammar.Enclosed
import SqlSyntax.Proofs.Grammar.LocalExpression

/-!
# Queries keep to their statement
-/

namespace SqlSyntax.Grammar

open SqlSyntax.Parser

/-! ### Output columns -/

instance : optionalLabel.Local := by
  have hbare : (kind >>= fun k => if isBareLabel k = true then do
      return some (← label) else return none).Local :=
    local_kind rfl inferInstance fun _ _ => inferInstance
  unfold optionalLabel
  infer_instance

instance : outputColumn.Local := by
  unfold outputColumn
  infer_instance

instance : optionalReturning.Local := by
  unfold optionalReturning
  infer_instance

instance : columnToFill.Local := by
  unfold columnToFill
  infer_instance

instance : assignment.Local := by
  unfold assignment
  infer_instance

instance : assignments.Local := by
  unfold assignments
  infer_instance

/-! ### Items of `FROM` -/

instance : enclosedSourceContent.Local := by
  unfold enclosedSourceContent
  infer_instance

instance (lateral : Bool) (s : Select) : (derivedTable lateral s).Local := by
  unfold derivedTable
  infer_instance

instance (lateral : Bool) : (enclosedItem lateral).Local := by
  unfold enclosedItem
  refine LocalFrom.bind inferInstance fun found => ?_
  split <;> infer_instance

instance : onlyTableName.Local := by
  unfold onlyTableName
  infer_instance

instance : onlyTable.Local := by
  unfold onlyTable
  infer_instance

instance (lateral : Bool) (function : List String) : (tableFunction lateral function).Local := by
  unfold tableFunction
  infer_instance

instance : skipStar.Local := by
  unfold skipStar
  infer_instance

instance (lateral : Bool) : (namedItem lateral).Local := by
  unfold namedItem
  infer_instance

instance (lateral : Bool) : (plainItem lateral).Local := by
  unfold plainItem
  infer_instance

instance : sourcePrimary.Local := by
  unfold sourcePrimary
  infer_instance

instance : joinKind?.Local := by
  unfold joinKind?
  refine local_kind rfl (inferInstanceAs (Local (pure none))) fun k _ => ?_
  split <;> infer_instance

instance (j : Join) : (joinCondition j).Local := by
  unfold joinCondition
  infer_instance

instance (kind : JoinKind) (natural : Bool) (left : Node) : (joinedWith kind natural left).Local := by
  unfold joinedWith
  infer_instance

instance (left : Node) : (naturalJoin left).Local := by
  unfold naturalJoin
  refine LocalFrom.bind inferInstance fun found => ?_
  split <;> infer_instance

instance (left : Node) : (crossJoin left).Local := by
  unfold crossJoin
  infer_instance

instance (left : Node) : (moreJoins left).Local := by
  have hplain : (joinKind? >>= fun found => match found with
      | some kind => do return some (← joinedWith kind false left)
      | none => return none).Local := by
    refine LocalFrom.bind inferInstance fun found => ?_
    split <;> infer_instance
  unfold moreJoins
  infer_instance

instance (left : Node) : (joins left).Local := by
  unfold joins
  infer_instance

instance : source.Local := by
  unfold source
  infer_instance

instance : sources.Local := by
  unfold sources
  infer_instance

/-! ### Changes -/

instance : indexKey.Local := by
  have hname : (name >>= fun s => pure (some s, (none : Option Node))).Local := inferInstance
  unfold indexKey
  refine local_kind rfl hname fun k _ => ?_
  infer_instance

instance : indexElement.Local := by
  unfold indexElement
  infer_instance

instance : indexElements.Local := by
  unfold indexElements
  infer_instance

instance : optionalColumns.Local := by
  have hnext : (nextKind >>= fun k => if startsEnclosedQuery k = true then pure []
      else parenthesized (commaList columnToFill)).LocalFrom 1 :=
    localFrom_nextKind rfl inferInstance fun _ _ => inferInstance
  unfold optionalColumns
  infer_instance

instance : insertedRows.Local := by
  unfold insertedRows
  infer_instance

instance : optionalConflictTarget.Local := by
  unfold optionalConflictTarget
  infer_instance

instance (target : Option ConflictTarget) : (conflictUpdate target).Local := by
  unfold conflictUpdate
  infer_instance

instance : onConflict.Local := by
  unfold onConflict
  infer_instance

instance : insertedTable.Local := by
  unfold insertedTable
  infer_instance

instance : insert.Local := by
  unfold insert
  infer_instance

instance : changedTable.Local := by
  unfold changedTable
  infer_instance

instance : changedTableWithAlias.Local := by
  unfold changedTableWithAlias
  infer_instance

instance : update.Local := by
  unfold update
  infer_instance

instance : delete.Local := by
  unfold delete
  infer_instance

instance : change?.Local := by
  unfold change?
  refine local_kind rfl (inferInstanceAs (Local (pure none))) fun k _ => ?_
  split <;> infer_instance

/-! ### Queries -/

instance : distinctKeys.Local := by
  unfold distinctKeys
  infer_instance

instance : optionalDistinct.Local := by
  unfold optionalDistinct
  infer_instance

instance : outputColumns.Local := by
  unfold outputColumns
  refine local_kind rfl inferInstance fun k _ => ?_
  split <;> infer_instance

instance : groupKeys.Local := by
  unfold groupKeys
  infer_instance

instance : windowDefinition.Local := by
  unfold windowDefinition
  infer_instance

instance : selection.Local := by
  unfold selection
  infer_instance

instance : row.Local := by
  unfold row
  infer_instance

instance : rows.LocalFrom 1 := by
  unfold rows
  infer_instance

instance : simpleQuery.Local := by
  unfold simpleQuery
  refine local_kind rfl inferInstance fun k _ => ?_
  split <;> infer_instance

instance : allOrDistinct.Local := by
  unfold allOrDistinct
  infer_instance

instance (op : SetOp) (left : Select) (right : Parser Select) [right.Local] :
    (combinedWith op left right).Local := by
  unfold combinedWith
  infer_instance

instance (left : Select) : (moreIntersected left).Local := by
  unfold moreIntersected
  infer_instance

instance : intersection.Local := by
  unfold intersection
  infer_instance

instance (op : SetOp) : (secondQuery op).Local := by
  unfold secondQuery
  split <;> infer_instance

instance (left : Select) : (moreCombined left).Local := by
  unfold moreCombined
  refine local_kind rfl (inferInstanceAs (Local (pure none))) fun k _ => ?_
  split <;> infer_instance

instance (first : Select) : (combinationOf first).Local := by
  unfold combinationOf
  infer_instance

instance : combination.Local := by
  unfold combination
  infer_instance

instance (s : Select) : (queryOrder s).Local := by
  unfold queryOrder
  infer_instance

instance : limitCount.Local := by
  unfold limitCount
  infer_instance

instance (first : Nat) (s : Select) : (limit first s).Local := by
  unfold limit
  infer_instance

instance (first : Nat) (s : Select) : (offset first s).Local := by
  unfold offset
  infer_instance

instance : fetchCount.Local := by
  unfold fetchCount
  refine local_kind rfl inferInstance fun k _ => ?_
  split <;> infer_instance

instance (v w : Keyword) : (expectEither v w).Local := by
  unfold expectEither
  infer_instance

instance : fetchStyle.Local := by
  unfold fetchStyle
  infer_instance

instance (first : Nat) (s : Select) : (fetch first s).Local := by
  unfold fetch
  infer_instance

instance : lockStrength.Local := by
  unfold lockStrength
  refine local_kind rfl (inferInstanceAs (Local (unexpected _))) fun k _ => ?_
  split <;> infer_instance

instance : lockWait.Local := by
  unfold lockWait
  infer_instance

instance : locking.Local := by
  unfold locking
  infer_instance

instance (s : Select) : (moreClauses s).Local := by
  unfold moreClauses
  refine ⟨fun first => (local_kind rfl (inferInstanceAs (Local (pure none))) fun k _ => ?_).keeps⟩
  split <;> infer_instance

instance (s : Select) : (tail s).Local := by
  unfold tail
  infer_instance

instance (s : Select) : (continued s).Local := by
  unfold continued
  infer_instance

instance : materialization.Local := by
  unfold materialization
  infer_instance

instance : cteBody.Local := by
  unfold cteBody
  refine LocalFrom.bind inferInstance fun found => ?_
  split <;> infer_instance

instance : cte.Local := by
  unfold cte
  infer_instance

instance : ctes.Local := by
  unfold ctes
  infer_instance

instance (w : With) : (queryAfter w).Local := by
  unfold queryAfter
  infer_instance

instance : queryWithClauses.Local := by
  unfold queryWithClauses
  infer_instance

/-! ### Parentheses -/

instance (first : Node) : (enclosedItems first).Local := by
  unfold enclosedItems
  refine LocalFrom.bind inferInstance fun found => ?_
  split <;> infer_instance

instance (first : Node) : (enclosedRest first).Local := by
  unfold enclosedRest
  infer_instance

instance (e : Enclosed) : (afterEnclosed e).Local := by
  cases e with
  | item n => exact inferInstanceAs (enclosedRest n).Local
  | query s => exact local_kind rfl (inferInstanceAs (enclosedRest _).Local) fun _ _ => inferInstance

instance : enclosed.Local := by
  have hcontent : (enclosedContent >>= afterEnclosed).Local := inferInstance
  unfold enclosed
  refine LocalFrom.bind inferInstance fun _ => ?_
  exact local_kind rfl inferInstance fun _ _ => inferInstance

instance (e : Enclosed) : (afterEnclosedSource e).Local := by
  cases e with
  | item n =>
    have hjoins : (optionalAlias >>= fun a => joins (n.labelled a) >>= fun n =>
        pure (Enclosed.item n)).Local := inferInstance
    exact hjoins
  | query s => exact local_kind rfl inferInstance fun _ _ => inferInstance

instance : enclosedSourceBody.Local := by
  unfold enclosedSourceBody
  refine local_kind rfl inferInstance fun k _ => ?_
  split <;> infer_instance

instance : enclosedSource.Local := by
  unfold enclosedSource
  infer_instance

end SqlSyntax.Grammar
