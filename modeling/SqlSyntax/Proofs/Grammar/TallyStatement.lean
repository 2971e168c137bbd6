import SqlSyntax.Proofs.Grammar.TallyQuery
import SqlSyntax.Script

/-!
# Statements keep the account

Settings, transactions and most definitions hold no parameters at all.  The common table
expressions in front of a change become its own.

## Main results

* `tallies_create` — definitions, with the constraints of their columns.
* `tallies_statement` — **statements hold the parameters that they are read from.**
* `tallies_body` — so do all rules of the grammar.
-/

namespace SqlSyntax
namespace Grammar

open SqlSyntax.Parser

variable {β : Type} {held : Multiset Int} {u : β → Multiset Int}

/-! ### Transactions -/

instance : skipTransaction.Quiet := by
  unfold skipTransaction
  infer_instance

instance : optionalChain.Quiet := by
  unfold optionalChain
  infer_instance

instance : isolationLevel.Quiet := by
  unfold isolationLevel
  refine quiet_kind (fun m => inferInstanceAs (unexpected _).Quiet) fun k _ => ?_
  split <;> infer_instance

instance : optionalMode.Quiet := by
  unfold optionalMode
  refine quiet_kind (fun m => inferInstanceAs (Quiet (pure none))) fun k _ => ?_
  split <;> infer_instance

instance (modes : List TransactionMode) : (modeComma modes).Quiet := by
  unfold modeComma
  infer_instance

instance (modes : List TransactionMode) : (moreModes modes).Quiet := by
  have hmode (comma : Bool) (found : Option TransactionMode) : (match found with
      | some m => pure (some (m :: modes))
      | none => if comma then misplaced else pure none : Parser _).Quiet := by
    split <;> infer_instance
  exact ⟨quiet_bind fun comma => quiet_bind fun found => (hmode comma found).tallies⟩

instance : transactionModes.Quiet := by
  unfold transactionModes
  infer_instance

instance : rollback.Quiet := by
  unfold rollback
  infer_instance

instance (t : TransactionWord) : (transaction t).Quiet := by
  unfold transaction
  split <;> infer_instance

/-! ### Settings -/

instance : dottedSetting.Quiet := by
  unfold dottedSetting
  infer_instance

instance : settingName.Quiet := by
  unfold settingName
  infer_instance

instance (negative : Bool) : (signedNumber negative).Quiet := by
  unfold signedNumber
  refine quiet_kind (fun m => inferInstanceAs (Quiet misplaced)) fun k _ => ?_
  split <;> infer_instance

theorem tallies_settingValue : settingValue.Tallies Node.params := by
  refine tallies_kind_bind (fun m => tallies_refuse _) fun k _ => ?_
  split
  · exact tallies_skip_bind (quiet_bind fun v => tallies_pure (by simp))
  · exact tallies_skip_bind (quiet_bind fun v => tallies_pure (by simp))
  · exact quiet_bind fun v => tallies_pure (by simp)

instance : isLocal.Quiet := by
  unfold isLocal
  infer_instance

theorem tallies_zoneValue (isLocal : Bool) : (zoneValue isLocal).Tallies Node.params := by
  have hvalue : (settingValue >>= fun n =>
      pure (Node.setting .set (some zoneSetting) [n] isLocal)).Tallies Node.params :=
    tallies_settingValue.bind fun n => tallies_pure (by simp)
  refine tallies_kind_bind (fun m => hvalue) fun k _ => ?_
  split
  · exact tallies_skip_bind (tallies_pure (by simp))
  · exact tallies_skip_bind (tallies_pure (by simp))
  · exact hvalue.of_le (Nat.zero_le 1)

instance : settingSign.Quiet := by
  unfold settingSign
  infer_instance

theorem tallies_settingWithValue (isLocal : Bool) :
    (settingWithValue isLocal).Tallies Node.params := by
  refine quiet_bind fun s => quiet_bind fun _ => tallies_test_bind (tallies_pure (by simp)) ?_
  exact (tallies_commaList tallies_settingValue).bind fun values => tallies_pure (by simp)

theorem tallies_setting : setting.Tallies Node.params := by
  refine quiet_bind fun loc => tallies_isAtWords_bind .TIME .ZONE ?_ (tallies_settingWithValue loc)
  exact tallies_skip_bind (tallies_skip_bind (tallies_zoneValue loc))

theorem tallies_reset : reset.Tallies Node.params :=
  tallies_test_bind (tallies_pure (by simp)) (quiet_bind fun s => tallies_pure (by simp))

theorem tallies_showSetting : showSetting.Tallies Node.params :=
  tallies_test_bind (tallies_pure (by simp)) (quiet_bind fun s => tallies_pure (by simp))

/-! ### Words in definitions -/

/-- A parameter spells no word. -/
theorem tallies_spelledWord_bind {f : Option Keyword → Parser β}
    (hnone : (f none).TalliesFrom 0 held u) (hsome : ∀ w, (f (some w)).TalliesFrom 1 held u) :
    (spelledWord >>= f).TalliesFrom 0 held u := by
  refine tallies_kind_bind (fun m => hnone) fun k _ => ?_
  cases k.spelledKeyword? with
  | none => exact hnone.of_le (Nat.zero_le 1)
  | some w => exact hsome w

theorem quiet_spelledWord {f : Option Keyword → Parser β} (hnone : (f none).Quiet)
    (hsome : ∀ w, (f (some w)).QuietFrom 1) : (spelledWord >>= f).Quiet :=
  ⟨tallies_spelledWord_bind hnone.tallies fun w => (hsome w).tallies⟩

instance : spelledWord.Still := by
  unfold spelledWord
  infer_instance

instance : ifNotExists.Quiet := by
  unfold ifNotExists
  infer_instance

instance : ifExists.Quiet := by
  unfold ifExists
  infer_instance

/-! ### Constraints -/

theorem tallies_check : check.Tallies Constraint.params :=
  (tallies_parenthesized tallies_expression).bind fun n =>
    tallies_pure (by simp [Constraint.params])

instance : foreignKeyAction.Quiet := by
  unfold foreignKeyAction
  refine quiet_spelledWord (inferInstanceAs (Quiet misplaced)) fun w => ?_
  split <;> infer_instance

/-- An action takes the place of another one, but neither holds anything. -/
theorem tallies_moreActions (c : Constraint) :
    (moreActions c).TalliesFrom 0 c.params fun found => (found.getD c).params := by
  refine tallies_isAt_bind (.keyword .ON) ?_ (tallies_pure rfl)
  refine tallies_nextKind_bind (fun m => tallies_pure rfl) fun k _ => ?_
  split
  · exact tallies_skip_bind (tallies_skip_bind (quiet_bind fun _ => tallies_pure rfl))
  · exact tallies_skip_bind (tallies_skip_bind (quiet_bind fun _ => tallies_pure rfl))
  · exact tallies_pure rfl

theorem tallies_foreignKey (columns : List String) :
    (foreignKey columns).Tallies Constraint.params :=
  quiet_bind fun _ => quiet_bind fun _ => tallies_iterate tallies_moreActions _

instance : optionalConstraintName.Quiet := by
  unfold optionalConstraintName
  infer_instance

theorem tallies_columnConstraintBody :
    columnConstraintBody.Tallies fun o => total Constraint.params o.toList := by
  refine tallies_spelledWord_bind (tallies_pure rfl) fun w => ?_
  split
  case h_8 => exact tallies_pure rfl
  -- only defaults and checks hold an expression
  all_goals apply tallies_skip_bind
  · exact quiet_bind fun _ => tallies_pure rfl
  · exact tallies_pure rfl
  · exact (tallies_operand _).bind fun n => tallies_pure (by simp [Constraint.params])
  · exact tallies_check.bind fun c => tallies_pure (by simp)
  · exact quiet_bind fun _ => tallies_pure rfl
  · exact tallies_pure rfl
  · exact (tallies_foreignKey []).bind fun c => tallies_pure (by simp)

theorem tallies_columnConstraint :
    columnConstraint.Tallies fun o => total Constraint.params o.toList := by
  refine quiet_bind fun s => tallies_columnConstraintBody.trans fun found => ?_
  split
  · exact tallies_pure rfl
  · exact tallies_pure rfl
  · exact tallies_refuse _

theorem tallies_tableConstraintBody : tableConstraintBody.Tallies Constraint.params := by
  refine tallies_spelledWord_bind (tallies_refuse _) fun w => ?_
  split
  · exact tallies_skip_bind tallies_check
  · exact tallies_skip_bind (quiet_bind fun _ => quiet_bind fun _ => tallies_pure rfl)
  · exact tallies_skip_bind (quiet_bind fun _ => tallies_pure rfl)
  · refine tallies_skip_bind (quiet_bind fun _ => quiet_bind fun columns => quiet_bind fun _ => ?_)
    exact tallies_foreignKey columns
  · exact tallies_refuse _

theorem tallies_tableConstraint : tableConstraint.Tallies Constraint.params :=
  quiet_bind fun _ => tallies_tableConstraintBody.trans fun _ => tallies_pure rfl

/-! ### Tables, indexes and views -/

theorem tallies_moreColumnParts (c : ColumnDef) :
    (moreColumnParts c).TalliesFrom 0 c.params fun found => (found.getD c).params := by
  refine tallies_test_bind (quiet_bind fun _ => tallies_pure rfl) ?_
  refine tallies_columnConstraint.bind fun found => ?_
  cases found with
  | none => exact tallies_pure (add_zero _)
  | some k => exact tallies_pure (by simp [ColumnDef.params, add_assoc])

theorem tallies_columnDef : columnDef.Tallies ColumnDef.params := by
  refine quiet_bind fun s => tallies_typeName.trans fun type => ?_
  have hparts := tallies_iterate tallies_moreColumnParts ⟨s, type, [], []⟩
  rwa [ColumnDef.params, total_nil, add_zero] at hparts

theorem tallies_tableElement : tableElement.Tallies Node.params := by
  refine tallies_still_bind fun w => tallies_ite (fun _ => ?_) fun _ => ?_
  · exact tallies_tableConstraint.bind fun c => tallies_pure (by simp)
  · exact tallies_columnDef.bind fun c => tallies_pure (by simp)

theorem tallies_tableElements : tableElements.Tallies (total Node.params) :=
  tallies_test_bind (tallies_pure rfl) (tallies_commaList tallies_tableElement)

theorem tallies_createTable (p : Persistence) : (createTable p).Tallies Node.params := by
  refine quiet_bind fun lenient => quiet_bind fun t => ?_
  exact (tallies_parenthesized tallies_tableElements).bind fun es => tallies_pure (by simp)

theorem tallies_createView (p : Persistence) (replace : Bool) :
    (createView p replace).Tallies Node.params := by
  refine quiet_bind fun t => quiet_bind fun columns => quiet_bind fun _ => ?_
  exact tallies_query.bind fun s => tallies_pure (by simp)

instance (lenient : Bool) : (optionalIndexName lenient).Quiet := by
  unfold optionalIndexName
  infer_instance

theorem tallies_createIndex (unique : Bool) : (createIndex unique).Tallies Node.params := by
  refine quiet_bind fun concurrently => quiet_bind fun lenient => quiet_bind fun s => ?_
  refine quiet_bind fun _ => quiet_bind fun only => quiet_bind fun t => quiet_bind fun method => ?_
  refine tallies_indexElements.bind fun elements => ?_
  exact tallies_optionalCondition.bind fun condition => tallies_pure (by simp)

instance : orReplace.Quiet := by
  unfold orReplace
  infer_instance

instance : persistence.Quiet := by
  unfold persistence
  refine quiet_spelledWord (inferInstanceAs (Quiet (pure _))) fun w => ?_
  split <;> infer_instance

theorem tallies_create : create.Tallies Node.params := by
  refine quiet_bind fun replace => quiet_bind fun p => ?_
  refine tallies_spelledWord_bind (tallies_refuse _) fun w => ?_
  split
  · exact tallies_skip_bind (tallies_createTable _)
  · exact tallies_skip_bind (tallies_createView _ _)
  · exact tallies_skip_bind (tallies_createIndex false)
  · exact tallies_skip_bind (quiet_bind fun _ => tallies_createIndex true)
  · exact tallies_refuse _

/-! ### Removal -/

instance : objectKind.Quiet := by
  unfold objectKind
  exact quiet_spelledWord (inferInstanceAs (unexpected _).Quiet) fun w => inferInstance

instance (k : ObjectKind) : (dropConcurrently k).Quiet := by
  unfold dropConcurrently
  infer_instance

instance : dropBehavior.Quiet := by
  unfold dropBehavior
  infer_instance

instance : drop.Quiet := by
  unfold drop
  infer_instance

instance : restartIdentity.Quiet := by
  unfold restartIdentity
  infer_instance

instance : truncate.Quiet := by
  unfold truncate
  infer_instance

/-! ### Statements -/

/-- A change that is read behind `WITH` has no common table expressions before it gets
these. -/
theorem tallies_statementAfterWith : statementAfterWith.Tallies Node.params := by
  refine tallies_ctes.trans fun w => tallies_change?.bind_of_yields bare_change? fun found hbare => ?_
  cases found with
  | some c =>
    -- what stood behind `WITH` is in hand
    refine tallies_pure ?_
    have hctes := Change.params_withCtes w (hbare c rfl)
    simpa [Change.params] using hctes.symm
  | none =>
    have hquery := tallies_queryAfter w
    rw [Option.toList_none, total_nil, add_zero]
    exact hquery.trans fun s => tallies_pure (by simp)

theorem tallies_transactionStatement (w : Keyword) :
    (transactionStatement w).TalliesFrom 1 0 Node.params := by
  unfold transactionStatement
  split
  · exact tallies_skip_bind (quiet_bind fun t => tallies_pure (by simp))
  · exact tallies_refuse _

theorem tallies_statementOfWord (w : Keyword) :
    (statementOfWord w).TalliesFrom 1 0 Node.params := by
  unfold statementOfWord
  split
  · exact tallies_skip_bind tallies_create
  · exact tallies_skip_bind (quiet_bind fun s => tallies_pure (by simp))
  · exact tallies_skip_bind (quiet_bind fun s => tallies_pure (by simp))
  · exact tallies_skip_bind tallies_setting
  · exact tallies_skip_bind tallies_reset
  · exact tallies_skip_bind tallies_showSetting
  · exact tallies_transactionStatement w

theorem tallies_otherStatement : otherStatement.Tallies Node.params := by
  refine tallies_change?.trans fun found => ?_
  cases found with
  | some c => exact tallies_pure (add_zero _)
  | none =>
    refine tallies_kind_bind (fun m => tallies_refuse _) fun k _ => ?_
    split
    · exact tallies_statementOfWord _
    · exact tallies_refuse _

/-- **Statements hold the parameters that they are read from.** -/
theorem tallies_statement : statement.Tallies Node.params := by
  have hquery : (query >>= fun s => pure (Node.select s)).TalliesFrom 1 0 Node.params :=
    (tallies_query.bind fun s => tallies_pure (by simp)).of_le (Nat.zero_le 1)
  refine tallies_kind_bind (fun m => tallies_otherStatement) fun k _ => ?_
  split
  -- `SELECT`, `VALUES` and a parenthesis start a query
  · exact hquery
  · exact hquery
  · exact hquery
  · exact tallies_skip_bind tallies_statementAfterWith
  · exact tallies_otherStatement.of_le (Nat.zero_le 1)

theorem tallies_wholeStatement : wholeStatement.Tallies Node.params :=
  tallies_statement.trans fun _ => tallies_still_bind fun _ =>
    tallies_ite (fun _ => tallies_pure rfl) fun _ => tallies_refuse _

/-- All rules of the grammar keep the account. -/
theorem tallies_body : ∀ r : Rule, r.body.Tallies r.params
  | .expression above => tallies_expressionAbove above
  | .query => tallies_queryWithClauses
  | .enclosed => tallies_enclosed
  | .elements => tallies_elements
  | .enclosedSource => tallies_enclosedSource

end Grammar
end SqlSyntax
