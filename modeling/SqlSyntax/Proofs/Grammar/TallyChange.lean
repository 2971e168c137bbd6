import SqlSyntax.Grammar.Change
import SqlSyntax.Proofs.Grammar.TallyCall

/-!
# Items of `FROM` and changes keep the account

A name for an item holds nothing, whatever name it takes the place of.  A join is in hand
while its condition is read.

## Main definitions

* `Change.ctes` — the common table expressions of a change.

## Main results

* `tallies_source` — items with their joins.
* `tallies_onConflict` — what is done with rows that conflict.
* `tallies_change?` — **changes hold the parameters that they are read from.**
* `bare_change?` — a change is read without common table expressions.
-/

namespace SqlSyntax

/-- A name for an item holds nothing. -/
@[simp] theorem Node.params_labelled (item : Node) (label : Option Alias) :
    (item.labelled label).params = item.params := by
  unfold labelled
  split <;> simp

/-- The common table expressions of a change. -/
def Change.ctes : Change → Option With
  | insert s => s.ctes
  | update s => s.ctes
  | delete s => s.ctes

/-- The parameters of a change. -/
def Change.params (c : Change) : Multiset Int :=
  c.node.params

/-- Common table expressions are put in front of a change that has none. -/
theorem Change.params_withCtes {c : Change} (w : With) (h : c.ctes = none) :
    (c.withCtes w).params = w.params + c.params := by
  cases c with
  | insert s | update s | delete s =>
    change s.ctes = none at h
    simp [params, withCtes, node, Insert.children, Update.children, Delete.children, h]

namespace Grammar

open SqlSyntax.Parser

/-! ### Output columns and assignments -/

instance : optionalLabel.Quiet := by
  have hlabel : (kind >>= fun k =>
      if isBareLabel k then label >>= fun s => pure (some s) else pure none).Quiet :=
    quiet_kind (fun _ => inferInstance) fun _ _ => inferInstance
  unfold optionalLabel
  infer_instance

theorem tallies_outputColumn : outputColumn.Tallies Target.params := by
  refine tallies_test_bind (tallies_pure ?_) ?_
  · simp [Target.params]
  · refine tallies_expression.bind fun value => quiet_bind fun name => tallies_pure ?_
    simp [Target.params]

theorem tallies_optionalReturning : optionalReturning.Tallies (total Target.params) :=
  tallies_listAfter .RETURNING (tallies_commaList tallies_outputColumn)

theorem tallies_columnToFill : columnToFill.Tallies Target.params :=
  quiet_bind fun _ => tallies_pure rfl

theorem tallies_assignment : assignment.Tallies Target.params := by
  refine quiet_bind fun column => quiet_bind fun _ => ?_
  exact tallies_valueOrDefault.bind fun value => tallies_pure (by simp [Target.params])

theorem tallies_assignments : assignments.Tallies (total Target.params) :=
  tallies_commaList tallies_assignment

/-! ### Items -/

theorem tallies_derivedTable (lateral : Bool) (s : Select) :
    (derivedTable lateral s).TalliesFrom 0 s.params Node.params :=
  quiet_bind fun label => tallies_pure (by simp)

theorem tallies_enclosedItem (lateral : Bool) : (enclosedItem lateral).Tallies Node.params := by
  refine tallies_enclosedSourceContent.trans fun e => ?_
  cases e with
  | query s => exact tallies_derivedTable lateral s
  | item n => exact quiet_bind fun label => tallies_pure (by simp [Enclosed.params])

instance : onlyTableName.Quiet := by
  unfold onlyTableName
  infer_instance

theorem tallies_onlyTable : onlyTable.Tallies Node.params :=
  quiet_bind fun t => quiet_bind fun label => tallies_pure (by simp)

theorem tallies_tableFunction (lateral : Bool) (function : List String) :
    (tableFunction lateral function).Tallies Node.params := by
  refine (tallies_call function).bind fun c => quiet_bind fun ordinality => ?_
  have hrest : (optionalAlias >>= fun label =>
      pure (Node.tableFunction ⟨lateral, ordinality, c, label⟩)).TalliesFrom 0 (0 + c.params)
        Node.params :=
    quiet_bind fun label => tallies_pure (by simp)
  exact tallies_ite (fun _ => quiet_bind fun _ => hrest) fun _ => hrest

instance : skipStar.Quiet := by
  unfold skipStar
  infer_instance

theorem tallies_namedItem (lateral : Bool) : (namedItem lateral).Tallies Node.params := by
  refine quiet_bind fun first => quiet_bind fun names => ?_
  cases lateral with
  | true => exact tallies_test_bind (tallies_tableFunction true names) (tallies_refuse _)
  | false =>
    refine tallies_test_bind (tallies_tableFunction false names) (quiet_bind fun t => ?_)
    exact quiet_bind fun _ => quiet_bind fun label => tallies_pure (by simp)

theorem tallies_plainItem (lateral : Bool) : (plainItem lateral).Tallies Node.params := by
  refine tallies_ite (fun _ => tallies_namedItem true) fun _ => ?_
  exact tallies_test_bind tallies_onlyTable (tallies_namedItem false)

theorem tallies_sourcePrimary : sourcePrimary.Tallies Node.params :=
  quiet_bind fun lateral =>
    tallies_test_bind (tallies_enclosedItem lateral) (tallies_plainItem lateral)

/-! ### Joins -/

instance : joinKind?.Quiet := by
  unfold joinKind?
  refine quiet_kind (fun m => inferInstanceAs (Quiet (pure none))) fun k _ => ?_
  split <;> infer_instance

/-- A join has no condition before it is read. -/
theorem tallies_joinCondition {j : Join} (hj : j.condition = none) :
    (joinCondition j).TalliesFrom 0 (Node.join j).params fun j => (Node.join j).params := by
  refine tallies_test_bind ?_ (tallies_test_bind ?_ (tallies_refuse _))
  · exact tallies_expression.bind fun condition => tallies_pure (by simp [hj])
  · exact quiet_bind fun columns => tallies_pure (by simp)

theorem tallies_joinedWith (kind : JoinKind) (natural : Bool) (left : Node) :
    (joinedWith kind natural left).TalliesFrom 0 left.params Node.params := by
  refine quiet_bind fun _ => tallies_sourcePrimary.bind fun right => ?_
  let j : Join := { kind := kind, natural := natural, left := left, right := right }
  have hj : left.params + right.params = (Node.join j).params := by simp [j]
  rw [hj]
  refine tallies_ite (fun _ => tallies_pure rfl) fun _ => ?_
  exact (tallies_joinCondition rfl).trans fun j => tallies_pure rfl

theorem tallies_naturalJoin (left : Node) :
    (naturalJoin left).TalliesFrom 0 left.params Node.params := by
  refine quiet_bind fun found => ?_
  cases found with
  | none => exact tallies_refuse _
  | some kind => exact tallies_joinedWith kind true left

theorem tallies_crossJoin (left : Node) :
    (crossJoin left).TalliesFrom 0 left.params Node.params := by
  refine quiet_bind fun _ => tallies_sourcePrimary.bind fun right => tallies_pure ?_
  simp

theorem tallies_moreJoins (left : Node) :
    (moreJoins left).TalliesFrom 0 left.params fun found => (found.getD left).params := by
  refine tallies_test_bind ?_ (tallies_test_bind ?_ (quiet_bind fun found => ?_))
  · exact (tallies_naturalJoin left).trans fun j => tallies_pure rfl
  · exact (tallies_crossJoin left).trans fun j => tallies_pure rfl
  · cases found with
    | none => exact tallies_pure rfl
    | some kind => exact (tallies_joinedWith kind false left).trans fun j => tallies_pure rfl

theorem tallies_joins (left : Node) : (joins left).TalliesFrom 0 left.params Node.params :=
  tallies_iterate tallies_moreJoins left

theorem tallies_source : source.Tallies Node.params :=
  tallies_sourcePrimary.trans tallies_joins

theorem tallies_sources : sources.Tallies (total Node.params) :=
  tallies_commaList tallies_source

/-! ### Index elements -/

theorem tallies_indexKey : indexKey.Tallies fun p => total Node.params p.2.toList := by
  have hname : (name >>= fun s => pure (some s, none)).Tallies
      fun p : Option String × Option Node => total Node.params p.2.toList :=
    quiet_bind fun _ => tallies_pure rfl
  refine tallies_still_bind fun k => tallies_ite (fun _ => ?_) fun _ => ?_
  · -- the name of a function shows by the parenthesis behind it
    refine tallies_still_bind fun found => tallies_ite (fun _ => ?_) fun _ => hname
    refine quiet_bind fun function => (tallies_call _).bind fun c => tallies_pure ?_
    simp
  · refine tallies_ite (fun _ => ?_) fun _ => hname
    exact (tallies_parenthesized tallies_expression).bind fun n => tallies_pure (by simp)

theorem tallies_indexElement : indexElement.Tallies IndexElement.params := by
  refine tallies_indexKey.trans fun (column, expression) => ?_
  exact quiet_bind fun direction => quiet_bind fun nulls => tallies_pure rfl

theorem tallies_indexElements : indexElements.Tallies (total IndexElement.params) :=
  tallies_parenthesized (tallies_commaList tallies_indexElement)

/-! ### Insertions -/

theorem tallies_optionalColumns : optionalColumns.Tallies (total Target.params) := by
  refine tallies_test_bind (tallies_still_bind fun k => ?_) (tallies_pure rfl)
  refine tallies_ite (fun _ => tallies_pure rfl) fun _ => ?_
  exact tallies_parenthesized (tallies_commaList tallies_columnToFill)

theorem tallies_insertedRows : insertedRows.Tallies fun o => total Select.params o.toList :=
  tallies_test_bind (quiet_bind fun _ => tallies_pure rfl)
    (tallies_query.bind fun s => tallies_pure (by simp))

theorem tallies_optionalConflictTarget :
    optionalConflictTarget.Tallies fun o => total ConflictTarget.params o.toList := by
  refine tallies_test_bind ?_ (tallies_test_bind ?_ (tallies_pure rfl))
  · -- columns and expressions
    refine tallies_indexElements.bind fun elements => ?_
    refine tallies_optionalCondition.bind fun condition => tallies_pure ?_
    simp [ConflictTarget.params]
  · -- the name of a constraint
    refine quiet_bind fun _ => quiet_bind fun name => tallies_pure ?_
    simp [ConflictTarget.params]

theorem tallies_conflictUpdate (target : Option ConflictTarget) :
    (conflictUpdate target).TalliesFrom 0 (total ConflictTarget.params target.toList)
      OnConflict.params := by
  refine quiet_bind fun first => quiet_bind fun _ => ?_
  refine tallies_ite (fun _ => tallies_fail _) fun _ => quiet_bind fun _ => ?_
  refine tallies_assignments.bind fun assigned => ?_
  exact tallies_optionalCondition.bind fun condition => tallies_pure rfl

theorem tallies_onConflict : onConflict.Tallies OnConflict.params := by
  refine quiet_bind fun _ => tallies_optionalConflictTarget.trans fun target => ?_
  refine quiet_bind fun _ => tallies_test_bind (tallies_pure ?_) (tallies_conflictUpdate target)
  simp [OnConflict.params]

instance : insertedTable.Quiet := by
  unfold insertedTable
  infer_instance

theorem tallies_insert : insert.Tallies fun s => (Node.insert s).params := by
  refine quiet_bind fun _ => quiet_bind fun table => ?_
  refine tallies_optionalColumns.bind fun columns => tallies_insertedRows.bind fun rows => ?_
  refine (tallies_after .ON tallies_onConflict).bind fun conflict => ?_
  refine tallies_optionalReturning.bind fun returning => tallies_pure ?_
  simp [Insert.children, add_assoc]

/-! ### Updates and deletions -/

instance : changedTable.Quiet := by
  unfold changedTable
  infer_instance

instance : changedTableWithAlias.Quiet := by
  unfold changedTableWithAlias
  infer_instance

theorem tallies_update : update.Tallies fun s => (Node.update s).params := by
  refine quiet_bind fun table => quiet_bind fun _ => tallies_assignments.bind fun assigned => ?_
  refine (tallies_listAfter .FROM tallies_sources).bind fun items => ?_
  refine tallies_optionalCondition.bind fun condition => ?_
  refine tallies_optionalReturning.bind fun returning => tallies_pure ?_
  simp [Update.children, add_assoc]

theorem tallies_delete : delete.Tallies fun s => (Node.delete s).params := by
  refine quiet_bind fun _ => quiet_bind fun table => ?_
  refine (tallies_listAfter .USING tallies_sources).bind fun items => ?_
  refine tallies_optionalCondition.bind fun condition => ?_
  refine tallies_optionalReturning.bind fun returning => tallies_pure ?_
  simp [Delete.children, add_assoc]

/-! ### Changes -/

theorem tallies_change? : change?.Tallies fun o => total Change.params o.toList := by
  refine tallies_kind_bind (fun m => tallies_pure rfl) fun k _ => ?_
  split
  · refine tallies_skip_bind (tallies_insert.bind fun s => tallies_pure ?_)
    simp [Change.params, Change.node]
  · refine tallies_skip_bind (tallies_update.bind fun s => tallies_pure ?_)
    simp [Change.params, Change.node]
  · refine tallies_skip_bind (tallies_delete.bind fun s => tallies_pure ?_)
    simp [Change.params, Change.node]
  · exact tallies_pure rfl

/-- A change is read without common table expressions, which stand in front of it. -/
theorem bare_change? {K : Known} : change?.Yields K fun o => ∀ c ∈ o, c.ctes = none := by
  refine yields_bind_any fun k => ?_
  have hinsert : insert.Yields K fun s => s.ctes = none := by
    refine yields_bind_any fun _ => yields_bind_any fun table => yields_bind_any fun columns => ?_
    refine yields_bind_any fun rows => yields_bind_any fun conflict => ?_
    exact yields_bind_any fun returning => yields_pure rfl
  have hupdate : update.Yields K fun s => s.ctes = none := by
    refine yields_bind_any fun table => yields_bind_any fun _ => yields_bind_any fun assigned => ?_
    refine yields_bind_any fun items => yields_bind_any fun condition => ?_
    exact yields_bind_any fun returning => yields_pure rfl
  have hdelete : delete.Yields K fun s => s.ctes = none := by
    refine yields_bind_any fun _ => yields_bind_any fun table => yields_bind_any fun items => ?_
    refine yields_bind_any fun condition => yields_bind_any fun returning => yields_pure rfl
  split
  · exact yields_bind_any fun _ => hinsert.bind fun s hs => yields_pure (forall_mem_some hs)
  · exact yields_bind_any fun _ => hupdate.bind fun s hs => yields_pure (forall_mem_some hs)
  · exact yields_bind_any fun _ => hdelete.bind fun s hs => yields_pure (forall_mem_some hs)
  · exact yields_pure (by simp)

end Grammar
end SqlSyntax
