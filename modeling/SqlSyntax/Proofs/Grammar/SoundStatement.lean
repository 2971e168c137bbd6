import SqlSyntax.Proofs.Grammar.SoundQuery

/-!
# The shape of statements

The statements besides queries and changes have only expressions, types and queries
below them.  With that every rule of the grammar gives trees that have their shape, and
so does every statement.

## Main results

* `create_sound`, `setting_sound` — definitions and settings.
* `body_sound` — every rule gives what it is known to give.
* `statement_sound` — **statements have their shape.**
-/

namespace SqlSyntax
namespace Grammar

open SqlSyntax.Parser

/-! ### Constraints and columns -/

theorem check_sound : check.Yields soundly fun c => (Node.constraint c).Sound := by
  unfold check
  apply (yields_parenthesized expression_sound).bind
  exact fun n hn => yields_pure (Node.sound_constraint.mpr (forall_mem_some hn))

theorem foreignKey_sound (columns : List String) :
    (foreignKey columns).Yields soundly fun c => (Node.constraint c).Sound := by
  unfold foreignKey
  apply yields_bind_any
  intro table
  apply yields_bind_any
  intro refColumns
  apply yields_iterate (P := fun c => (Node.constraint c).Sound)
  · exact Node.sound_constraint.mpr nofun
  · intro c hc
    have hexpression := Node.sound_constraint.mp hc
    unfold moreActions
    apply yields_bind_any
    intro on
    apply yields_ite
    · intro _
      apply yields_bind_any
      intro k
      split
      iterate 2
        · apply yields_bind_any
          intro _
          apply yields_bind_any
          intro _
          apply yields_bind_any
          exact fun action =>
            yields_pure (forall_mem_some (Node.sound_constraint.mpr hexpression))
      · exact yields_pure forall_mem_none
    · exact fun _ => yields_pure forall_mem_none

theorem sound_bareConstraint {c : Constraint} (h : c.expression = none) :
    (Node.constraint c).Sound := by
  rw [Node.sound_constraint, h]
  exact nofun

theorem columnConstraint_sound :
    columnConstraint.Yields soundly fun o => ∀ c ∈ o, (Node.constraint c).Sound := by
  have hbody : columnConstraintBody.Yields soundly
      fun o => ∀ c ∈ o, (Node.constraint c).Sound := by
    unfold columnConstraintBody
    apply yields_bind_any
    intro w
    split
    · apply yields_bind_any
      intro _
      apply yields_bind_any
      exact fun _ => yields_pure (forall_mem_some (sound_bareConstraint rfl))
    · apply yields_bind_any
      exact fun _ => yields_pure (forall_mem_some (sound_bareConstraint rfl))
    · apply yields_bind_any
      intro _
      apply (operand_sound _).bind
      exact fun n hn =>
        yields_pure (forall_mem_some (Node.sound_constraint.mpr (forall_mem_some hn)))
    · apply yields_bind_any
      intro _
      apply check_sound.bind
      exact fun c hc => yields_pure (forall_mem_some hc)
    · apply yields_bind_any
      intro _
      apply yields_bind_any
      exact fun _ => yields_pure (forall_mem_some (sound_bareConstraint rfl))
    · apply yields_bind_any
      exact fun _ => yields_pure (forall_mem_some (sound_bareConstraint rfl))
    · apply yields_bind_any
      intro _
      apply (foreignKey_sound []).bind
      exact fun c hc => yields_pure (forall_mem_some hc)
    · exact yields_pure forall_mem_none
  unfold columnConstraint
  apply yields_bind_any
  intro s
  apply hbody.bind
  intro o ho
  split
  · next c =>
    have hexpression := Node.sound_constraint.mp (ho c rfl)
    exact yields_pure (forall_mem_some (Node.sound_constraint.mpr hexpression))
  · exact yields_pure forall_mem_none
  · exact yields_misplaced

theorem tableConstraint_sound :
    tableConstraint.Yields soundly fun c => (Node.constraint c).Sound := by
  have hbody : tableConstraintBody.Yields soundly fun c => (Node.constraint c).Sound := by
    unfold tableConstraintBody
    apply yields_bind_any
    intro w
    split
    · apply yields_bind_any
      exact fun _ => check_sound
    · apply yields_bind_any
      intro _
      apply yields_bind_any
      intro _
      apply yields_bind_any
      exact fun keys => yields_pure (sound_bareConstraint rfl)
    · apply yields_bind_any
      intro _
      apply yields_bind_any
      exact fun keys => yields_pure (sound_bareConstraint rfl)
    · apply yields_bind_any
      intro _
      apply yields_bind_any
      intro _
      apply yields_bind_any
      intro columns
      apply yields_bind_any
      exact fun _ => foreignKey_sound columns
    · exact yields_misplaced
  unfold tableConstraint
  apply yields_bind_any
  intro s
  apply hbody.bind
  intro c hc
  have hexpression := Node.sound_constraint.mp hc
  exact yields_pure (Node.sound_constraint.mpr hexpression)

theorem columnDef_sound : columnDef.Yields soundly fun c => (Node.columnDef c).Sound := by
  unfold columnDef
  apply yields_bind_any
  intro s
  apply typeName_sound.bind
  intro type htype
  apply yields_iterate (P := fun c => (Node.columnDef c).Sound)
  · exact Node.sound_columnDef.mpr ⟨htype, nofun⟩
  · intro c hc
    obtain ⟨hmodifiers, hconstraints⟩ := Node.sound_columnDef.mp hc
    unfold moreColumnParts
    apply yields_bind_any
    intro collate
    apply yields_ite
    · intro _
      apply yields_bind_any
      exact fun names =>
        yields_pure (forall_mem_some (Node.sound_columnDef.mpr ⟨hmodifiers, hconstraints⟩))
    · intro _
      apply columnConstraint_sound.bind
      intro o ho
      split
      · next k =>
        have hall : ∀ k' ∈ c.constraints ++ [k], (Node.constraint k').Sound :=
          List.forall_mem_append.mpr ⟨hconstraints, List.forall_mem_singleton.mpr (ho k rfl)⟩
        exact yields_pure (forall_mem_some (Node.sound_columnDef.mpr ⟨hmodifiers, hall⟩))
      · exact yields_pure forall_mem_none

/-! ### Objects to create -/

theorem createTable_sound (persistence : Persistence) :
    (createTable persistence).Yields soundly Node.Sound := by
  have helement : tableElement.Yields soundly Node.Sound := by
    unfold tableElement
    apply yields_bind_any
    intro w
    apply yields_ite
    · intro _
      apply tableConstraint_sound.bind
      exact fun c hc => yields_pure hc
    · intro _
      apply columnDef_sound.bind
      exact fun c hc => yields_pure hc
  have helements : tableElements.Yields soundly fun es => ∀ n ∈ es, n.Sound := by
    unfold tableElements
    apply yields_bind_any
    intro closed
    apply yields_ite
    · exact fun _ => yields_pure (List.forall_mem_nil _)
    · exact fun _ => yields_commaList_mem helement
  unfold createTable
  apply yields_bind_any
  intro lenient
  apply yields_bind_any
  intro t
  apply (yields_parenthesized helements).bind
  exact fun es hes => yields_pure (Node.sound_createTable.mpr hes)

theorem createView_sound (persistence : Persistence) (replace : Bool) :
    (createView persistence replace).Yields soundly Node.Sound := by
  unfold createView
  apply yields_bind_any
  intro t
  apply yields_bind_any
  intro columns
  apply yields_bind_any
  intro _
  apply query_sound.bind
  exact fun s hs => yields_pure (Node.sound_createView.mpr hs)

theorem createIndex_sound (unique : Bool) : (createIndex unique).Yields soundly Node.Sound := by
  unfold createIndex
  apply yields_bind_any
  intro concurrently
  apply yields_bind_any
  intro lenient
  apply yields_bind_any
  intro s
  apply yields_bind_any
  intro _
  apply yields_bind_any
  intro only
  apply yields_bind_any
  intro t
  apply yields_bind_any
  intro method
  apply indexElements_sound.bind
  intro elements helements
  apply optionalCondition_sound.bind
  intro condition hcondition
  exact yields_pure (Node.sound_createIndex.mpr ⟨helements, hcondition⟩)

theorem create_sound : create.Yields soundly Node.Sound := by
  unfold create
  apply yields_bind_any
  intro replace
  apply yields_bind_any
  intro p
  apply yields_bind_any
  intro w
  split
  · apply yields_bind_any
    exact fun _ => createTable_sound _
  · apply yields_bind_any
    exact fun _ => createView_sound _ _
  · apply yields_bind_any
    exact fun _ => createIndex_sound false
  · apply yields_bind_any
    intro _
    apply yields_bind_any
    exact fun _ => createIndex_sound true
  · exact yields_misplaced

/-! ### Settings -/

theorem settingValue_sound : settingValue.Yields soundly Node.Sound := by
  unfold settingValue
  apply yields_bind_any
  intro k
  split
  · apply yields_bind_any
    intro _
    apply yields_bind_any
    exact fun v => yields_pure (Node.sound_const v)
  · apply yields_bind_any
    intro _
    apply yields_bind_any
    exact fun v => yields_pure (Node.sound_const v)
  · apply yields_bind_any
    exact fun v => yields_pure (Node.sound_const v)

theorem setting_sound : setting.Yields soundly Node.Sound := by
  unfold setting
  apply yields_bind_any
  intro loc
  apply yields_bind_any
  intro zone
  apply yields_ite
  · intro _
    apply yields_bind_any
    intro _
    apply yields_bind_any
    intro _
    unfold zoneValue
    apply yields_bind_any
    intro k
    split
    iterate 2
      · apply yields_bind_any
        exact fun _ => yields_pure (Node.sound_setting.mpr nofun)
    · apply settingValue_sound.bind
      exact fun v hv =>
        yields_pure (Node.sound_setting.mpr (List.forall_mem_singleton.mpr hv))
  · intro _
    unfold settingWithValue
    apply yields_bind_any
    intro s
    apply yields_bind_any
    intro _
    apply yields_bind_any
    intro default
    apply yields_ite
    · exact fun _ => yields_pure (Node.sound_setting.mpr nofun)
    · intro _
      apply (yields_commaList_mem settingValue_sound).bind
      exact fun vs hvs => yields_pure (Node.sound_setting.mpr hvs)

theorem reset_sound : reset.Yields soundly Node.Sound := by
  unfold reset
  apply yields_bind_any
  intro all
  apply yields_ite
  · exact fun _ => yields_pure (Node.sound_setting.mpr nofun)
  · intro _
    apply yields_bind_any
    exact fun s => yields_pure (Node.sound_setting.mpr nofun)

theorem showSetting_sound : showSetting.Yields soundly Node.Sound := by
  unfold showSetting
  apply yields_bind_any
  intro all
  apply yields_ite
  · exact fun _ => yields_pure (Node.sound_showSetting _)
  · intro _
    apply yields_bind_any
    exact fun s => yields_pure (Node.sound_showSetting s)

/-! ### Statements -/

theorem sound_withCtes {w : With} (hw : (Node.ctes w).Sound) {c : Change} (hc : c.node.Sound) :
    (c.withCtes w).node.Sound := by
  cases c with
  | insert s =>
    have hbelow := Node.sound_insert.mp hc
    exact Node.sound_insert.mpr { hbelow with ctes := forall_mem_some hw }
  | update s =>
    have hbelow := Node.sound_update.mp hc
    exact Node.sound_update.mpr { hbelow with ctes := forall_mem_some hw }
  | delete s =>
    have hbelow := Node.sound_delete.mp hc
    exact Node.sound_delete.mpr { hbelow with ctes := forall_mem_some hw }

theorem statementAfterWith_sound : statementAfterWith.Yields soundly Node.Sound := by
  unfold statementAfterWith
  apply ctes_sound.bind
  intro w hw
  apply change?_sound.bind
  intro o ho
  split
  · next c => exact yields_pure (sound_withCtes hw (ho c rfl))
  · apply (queryAfter_sound hw).bind
    exact fun s hs => yields_pure hs

theorem statementOfWord_sound (w : Keyword) : (statementOfWord w).Yields soundly Node.Sound := by
  unfold statementOfWord
  split
  · apply yields_bind_any
    exact fun _ => create_sound
  · apply yields_bind_any
    intro _
    apply yields_bind_any
    exact fun s => yields_pure (Node.sound_drop s)
  · apply yields_bind_any
    intro _
    apply yields_bind_any
    exact fun s => yields_pure (Node.sound_truncate s)
  · apply yields_bind_any
    exact fun _ => setting_sound
  · apply yields_bind_any
    exact fun _ => reset_sound
  · apply yields_bind_any
    exact fun _ => showSetting_sound
  · unfold transactionStatement
    split
    · apply yields_bind_any
      intro _
      apply yields_bind_any
      exact fun s => yields_pure (Node.sound_transaction s)
    · exact yields_misplaced

/-- Statements have their shape. -/
theorem statement_sound : statement.Yields soundly Node.Sound := by
  have hquery : (do return Node.select (← query) : Parser Node).Yields soundly Node.Sound := by
    apply query_sound.bind
    exact fun s hs => yields_pure hs
  unfold statement
  apply yields_bind_any
  intro k
  split
  iterate 3
    · exact hquery
  · apply yields_bind_any
    exact fun _ => statementAfterWith_sound
  · unfold otherStatement
    apply change?_sound.bind
    intro o ho
    split
    · next c => exact yields_pure (ho c rfl)
    · apply yields_bind_any
      intro k
      split
      · exact statementOfWord_sound _
      · exact yields_misplaced

/-- Every rule gives trees that have their shape, if the rules do that it refers to. -/
theorem body_sound (r : Rule) : r.body.Yields soundly (soundly.value r) := by
  cases r with
  | expression above => exact expressionAbove_sound above
  | query => exact queryWithClauses_sound
  | enclosed => exact enclosed_sound
  | elements => exact elements_sound
  | enclosedSource => exact enclosedSource_sound

end Grammar
end SqlSyntax
