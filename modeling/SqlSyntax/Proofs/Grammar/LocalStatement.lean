import SqlSyntax.Proofs.Grammar.LocalQuery
import SqlSyntax.Script

/-!
# Statements keep to their passage
-/

namespace SqlSyntax

open SqlSyntax.Parser

namespace Grammar

/-! ### Definitions -/

/-- A keyword that is there is a token of the statement. -/
theorem keeps_spelledWord : spelledWord.Keeps (fun w => if w.isSome then 1 else 0) 0 := by
  refine ⟨fun _ => ⟨rfl, Nat.le_refl 0⟩, fun k _ => ?_⟩
  show (if k.spelledKeyword?.isSome then 1 else 0) ≤ 1
  split <;> omega

theorem local_spelledWord {α : Type} {f : Option Keyword → Parser α} (hnone : (f none).Local)
    (hsome : ∀ w, (f (some w)).LocalFrom 1) : (spelledWord >>= f).Local := by
  refine ⟨keeps_spelledWord.bind fun w => ?_⟩
  cases w with
  | none => exact hnone.keeps
  | some w => exact (hsome w).keeps

instance : ifNotExists.Local := by
  unfold ifNotExists
  infer_instance

instance : ifExists.Local := by
  unfold ifExists
  infer_instance

instance : check.Local := by
  unfold check
  infer_instance

instance : foreignKeyAction.Local := by
  unfold foreignKeyAction
  refine local_spelledWord (inferInstanceAs (Local misplaced)) fun w => ?_
  split <;> infer_instance

instance (c : Constraint) : (moreActions c).Local := by
  have hnext : (nextKind >>= fun k => match k with
      | .keyword .DELETE => do
        skip
        skip
        return some { c with onDelete := ← foreignKeyAction }
      | .keyword .UPDATE => do
        skip
        skip
        return some { c with onUpdate := ← foreignKeyAction }
      | _ => return none).LocalFrom 1 := by
    refine localFrom_nextKind rfl (inferInstanceAs (LocalFrom 1 (pure none))) fun k _ => ?_
    split <;> infer_instance
  unfold moreActions
  infer_instance

instance (columns : List String) : (foreignKey columns).Local := by
  unfold foreignKey
  infer_instance

instance : optionalConstraintName.Local := by
  unfold optionalConstraintName
  infer_instance

instance : columnConstraintBody.Local := by
  unfold columnConstraintBody
  refine local_spelledWord (inferInstanceAs (Local (pure none))) fun w => ?_
  split <;> infer_instance

instance : columnConstraint.Local := by
  unfold columnConstraint
  refine LocalFrom.bind inferInstance fun s => LocalFrom.bind inferInstance fun found => ?_
  split <;> infer_instance

instance : tableConstraintBody.Local := by
  unfold tableConstraintBody
  refine local_spelledWord (inferInstanceAs (Local misplaced)) fun w => ?_
  split <;> infer_instance

instance : tableConstraint.Local := by
  unfold tableConstraint
  infer_instance

instance (c : ColumnDef) : (moreColumnParts c).Local := by
  have hconstraint : (columnConstraint >>= fun found => match found with
      | some k => pure (some { c with constraints := c.constraints ++ [k] })
      | none => pure none).Local := by
    refine LocalFrom.bind inferInstance fun found => ?_
    split <;> infer_instance
  unfold moreColumnParts
  infer_instance

instance : columnDef.Local := by
  unfold columnDef
  infer_instance

instance : tableElement.Local := by
  unfold tableElement
  exact local_spelledWord inferInstance fun w => inferInstance

instance : tableElements.Local := by
  unfold tableElements
  infer_instance

instance (persistence : Persistence) : (createTable persistence).Local := by
  unfold createTable
  infer_instance

instance (persistence : Persistence) (replace : Bool) : (createView persistence replace).Local := by
  unfold createView
  infer_instance

instance (lenient : Bool) : (optionalIndexName lenient).Local := by
  unfold optionalIndexName
  infer_instance

instance (unique : Bool) : (createIndex unique).Local := by
  unfold createIndex
  infer_instance

instance : orReplace.Local := by
  unfold orReplace
  infer_instance

instance : persistence.Local := by
  unfold persistence
  refine local_spelledWord (inferInstanceAs (Local (pure _))) fun w => ?_
  split <;> infer_instance

instance : create.Local := by
  unfold create
  refine LocalFrom.bind inferInstance fun replace => LocalFrom.bind inferInstance fun p => ?_
  refine local_spelledWord (inferInstanceAs (Local misplaced)) fun w => ?_
  split <;> infer_instance

instance : objectKind.Local := by
  exact local_spelledWord (inferInstanceAs (unexpected _).Local) fun w => inferInstance

instance (k : ObjectKind) : (dropConcurrently k).Local := by
  unfold dropConcurrently
  infer_instance

instance : dropBehavior.Local := by
  unfold dropBehavior
  infer_instance

instance : drop.Local := by
  unfold drop
  infer_instance

instance : restartIdentity.Local := by
  unfold restartIdentity
  infer_instance

instance : truncate.Local := by
  unfold truncate
  infer_instance

/-! ### Transactions and settings -/

instance : skipTransaction.Local := by
  unfold skipTransaction
  infer_instance

instance : optionalChain.Local := by
  unfold optionalChain
  infer_instance

instance : isolationLevel.Local := by
  unfold isolationLevel
  refine local_kind rfl (inferInstanceAs (Local (unexpected _))) fun k _ => ?_
  split <;> infer_instance

instance : optionalMode.Local := by
  unfold optionalMode
  refine local_kind rfl (inferInstanceAs (Local (pure none))) fun k _ => ?_
  split <;> infer_instance

instance (modes : List TransactionMode) : (modeComma modes).Local := by
  unfold modeComma
  infer_instance

instance (modes : List TransactionMode) : (moreModes modes).Local := by
  unfold moreModes
  refine LocalFrom.bind inferInstance fun comma => LocalFrom.bind inferInstance fun found => ?_
  split <;> infer_instance

instance : transactionModes.Local := by
  unfold transactionModes
  infer_instance

instance : rollback.Local := by
  unfold rollback
  infer_instance

instance (t : TransactionWord) : (transaction t).Local := by
  unfold transaction
  split <;> infer_instance

instance : dottedSetting.Local := by
  unfold dottedSetting
  infer_instance

instance : settingName.Local := by
  unfold settingName
  infer_instance

instance (negative : Bool) : (signedNumber negative).Local := by
  unfold signedNumber
  refine local_kind rfl (inferInstanceAs (Local misplaced)) fun k _ => ?_
  split <;> infer_instance

instance : settingValue.Local := by
  unfold settingValue
  refine local_kind rfl (inferInstanceAs (Local (unexpected _))) fun k _ => ?_
  split <;> infer_instance

instance : isLocal.Local := by
  unfold isLocal
  infer_instance

instance (isLocal : Bool) : (zoneValue isLocal).Local := by
  unfold zoneValue
  have hvalue : Local (settingValue >>= fun v =>
      pure (Node.setting .set (some zoneSetting) [v] isLocal)) := inferInstance
  refine local_kind rfl hvalue fun k _ => ?_
  split <;> infer_instance

instance : settingSign.Local := by
  unfold settingSign
  infer_instance

instance (isLocal : Bool) : (settingWithValue isLocal).Local := by
  unfold settingWithValue
  infer_instance

instance : setting.Local := by
  unfold setting
  infer_instance

instance : reset.Local := by
  unfold reset
  infer_instance

instance : showSetting.Local := by
  unfold showSetting
  infer_instance

/-! ### Statements -/

instance : statementAfterWith.Local := by
  unfold statementAfterWith
  refine LocalFrom.bind inferInstance fun w => LocalFrom.bind inferInstance fun found => ?_
  split <;> infer_instance

instance (w : Keyword) : (transactionStatement w).LocalFrom 1 := by
  unfold transactionStatement
  split <;> infer_instance

instance (w : Keyword) : (statementOfWord w).LocalFrom 1 := by
  unfold statementOfWord
  split <;> infer_instance

instance : otherStatement.Local := by
  unfold otherStatement
  refine LocalFrom.bind inferInstance fun found => ?_
  split
  · infer_instance
  · refine local_kind rfl (inferInstanceAs (Local misplaced)) fun k _ => ?_
    split <;> infer_instance

instance : statement.Local := by
  unfold statement
  refine local_kind rfl inferInstance fun k _ => ?_
  split <;> infer_instance

instance : wholeStatement.Local := by
  unfold wholeStatement
  refine LocalFrom.bind inferInstance fun n => ?_
  exact local_kind rfl inferInstance fun _ _ => inferInstance

end Grammar

/-! ### Rules -/

open Grammar

instance (r : Rule) : r.body.Local := by
  unfold Rule.body
  split <;> infer_instance

theorem stuck_primary : primary.Stuck :=
  ⟨fun _ => trivial, fun _ => trivial⟩

theorem stuck_leftOperand : leftOperand.Stuck :=
  ⟨stuck_primary, stuck_primary⟩

theorem stuck_simpleQuery : simpleQuery.Stuck :=
  ⟨fun _ => trivial, fun _ => trivial⟩

/-- What all rules read has a first token. -/
theorem stuck_body (r : Rule) : r.body.Stuck := by
  cases r with
  | expression above => exact stuck_leftOperand.bind _
  | query =>
    have hqueries : (combination >>= tail).Stuck := (stuck_simpleQuery.bind _).bind _
    exact ⟨hqueries, hqueries⟩
  | enclosed => exact ⟨fun _ => trivial, fun _ => trivial⟩
  | elements => exact ⟨fun _ => trivial, fun _ => trivial⟩
  | enclosedSource => exact ⟨fun _ => trivial, fun _ => trivial⟩

/-- At the end of a statement all rules fail. -/
theorem Rule.run_error {b : Boundary} (hb : b.stop.endsStatement = true) (depth : Nat) (r : Rule)
    {c : Cursor} (hc : c.run = []) : ∃ q c', r.run b depth c = .error q c' := by
  induction depth generalizing r c with
  | zero => exact ⟨_, _, rfl⟩
  | succ depth ih => exact (stuck_body r).error hb (fun r c hc => ih r hc) hc

variable {b b' : Boundary}

/-- Two runs of a rule agree. -/
theorem Rule.agree_run (hb : b.stop.endsStatement = true) (hb' : b'.stop.endsStatement = true)
    (depth : Nat) (r : Rule) {c c' : Cursor} (hc : c.Twin c') :
    (r.run b depth c).Agree (fun _ => 0) (r.run b' depth c') := by
  induction depth generalizing r c c' with
  | zero => exact trivial
  | succ depth ih =>
    have hrules : Agreeing (Rule.run b depth) (Rule.run b' depth) :=
      ⟨fun r c c' hc => ih r hc, fun r c hc => run_error hb depth r hc,
        fun r c hc => run_error hb' depth r hc⟩
    have hbody : r.body.Local := inferInstance
    exact hbody.keeps.agree hb hb' hrules hc (Nat.zero_le _)

/-- **What a parser makes of a statement depends on its tokens only**, not on how
it ends nor on what follows. -/
theorem Parser.agree_run {α : Type} (hb : b.stop.endsStatement = true)
    (hb' : b'.stop.endsStatement = true) (p : Parser α) [hp : p.Local] {c c' : Cursor}
    (hc : c.Twin c') : (p.run b c).Agree (fun _ => 0) (p.run b' c') := by
  have hrules : Agreeing (Rule.run b maxNesting) (Rule.run b' maxNesting) :=
    ⟨fun r _ _ hc => Rule.agree_run hb hb' maxNesting r hc,
      fun r _ hc => Rule.run_error hb maxNesting r hc,
      fun r _ hc => Rule.run_error hb' maxNesting r hc⟩
  exact hp.keeps.agree hb hb' hrules hc (Nat.zero_le _)

end SqlSyntax
