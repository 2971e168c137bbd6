import SqlSyntax.Grammar.Change
import SqlSyntax.Proofs.Grammar.SoundExpression

/-!
# The shape of items and changes

Output columns, the items of `FROM` with their joins, and the statements that insert,
update and delete rows.  A name behind an item in parentheses changes none of its nodes
but the root, and an update of rows that conflict knows its conflicts.

## Main results

* `sound_labelled`, `source_sound` — items have their shape.
* `onConflict_sound`, `change?_sound` — changes have their shape.
-/

namespace SqlSyntax
namespace Grammar

open SqlSyntax.Parser

/-! ### Output columns -/

theorem outputColumn_sound : outputColumn.Yields soundly fun t => (Node.target t).Sound := by
  unfold outputColumn
  apply yields_bind_any
  intro star
  apply yields_ite
  · intro _
    apply yields_pure
    simp [Node.sound_column]
  · intro _
    apply expression_sound.bind
    intro value hvalue
    apply yields_bind_any
    exact fun label => yields_pure (by simpa using hvalue)

theorem optionalReturning_sound :
    optionalReturning.Yields soundly fun ts => ∀ t ∈ ts, (Node.target t).Sound :=
  yields_listAfter .RETURNING (yields_commaList_mem outputColumn_sound)

theorem assignments_sound : assignments.Yields soundly
    fun ts => ts ≠ [] ∧ ∀ t ∈ ts, (Node.target t).Sound := by
  apply yields_commaList
  unfold assignment
  apply yields_bind_any
  intro column
  apply yields_bind_any
  intro _
  apply valueOrDefault_sound.bind
  exact fun value hvalue => yields_pure (by simpa using hvalue)

/-! ### Items of `FROM` -/

theorem sound_labelled {item : Node} (hitem : item.Sound) (label : Option Alias) :
    (item.labelled label).Sound := by
  unfold Node.labelled
  split
  · next j =>
    have hj := Node.sound_join.mp hitem
    exact Node.sound_join.mpr hj
  · exact Node.sound_table _
  · next t =>
    have hquery := Node.sound_derivedTable.mp hitem
    exact Node.sound_derivedTable.mpr hquery
  · next f =>
    have hcall := Node.sound_tableFunction.mp hitem
    exact Node.sound_tableFunction.mpr hcall
  · exact hitem

theorem derivedTable_sound (lateral : Bool) {s : Select} (hs : (Node.select s).Sound) :
    (derivedTable lateral s).Yields soundly Node.Sound := by
  unfold derivedTable
  apply yields_bind_any
  exact fun label => yields_pure (Node.sound_derivedTable.mpr hs)

theorem enclosedItem_sound (lateral : Bool) :
    (enclosedItem lateral).Yields soundly Node.Sound := by
  unfold enclosedItem
  apply yields_enclosedSourceContent.bind
  intro e he
  cases e with
  | query s => exact derivedTable_sound lateral he
  | item n =>
    apply yields_bind_any
    exact fun label => yields_pure (sound_labelled he label)

theorem namedItem_sound (lateral : Bool) : (namedItem lateral).Yields soundly Node.Sound := by
  unfold namedItem
  apply yields_bind_any
  intro first
  apply yields_bind_any
  intro names
  apply yields_bind_any
  intro parens
  apply yields_ite
  · intro _
    unfold tableFunction
    apply (call_sound names).bind
    intro c hc
    apply yields_bind_any
    intro ordinality
    have hrest : (do
        return Node.tableFunction ⟨lateral, ordinality, c, ← optionalAlias⟩ :
          Parser Node).Yields soundly Node.Sound := by
      apply yields_bind_any
      exact fun label => yields_pure (Node.sound_tableFunction.mpr hc)
    split
    · apply yields_bind_any
      exact fun _ => hrest
    · exact hrest
  · intro _
    apply yields_ite
    · exact fun _ => yields_unexpected _
    · intro _
      apply yields_bind_any
      intro t
      apply yields_bind_any
      intro _
      apply yields_bind_any
      exact fun label => yields_pure (Node.sound_table _)

theorem sourcePrimary_sound : sourcePrimary.Yields soundly Node.Sound := by
  unfold sourcePrimary
  apply yields_bind_any
  intro lateral
  apply yields_bind_any
  intro parens
  apply yields_ite
  · exact fun _ => enclosedItem_sound lateral
  · intro _
    unfold plainItem
    apply yields_ite
    · exact fun _ => namedItem_sound true
    · intro _
      apply yields_bind_any
      intro only
      apply yields_ite
      · intro _
        unfold onlyTable
        apply yields_bind_any
        intro t
        apply yields_bind_any
        exact fun label => yields_pure (Node.sound_table _)
      · exact fun _ => namedItem_sound false

theorem joinCondition_sound {j : Join} (hj : (Node.join j).Sound) :
    (joinCondition j).Yields soundly fun j => (Node.join j).Sound := by
  obtain ⟨hleft, hright, hcondition⟩ := Node.sound_join.mp hj
  unfold joinCondition
  apply yields_bind_any
  intro on
  apply yields_ite
  · intro _
    apply expression_sound.bind
    exact fun n hn => yields_pure (Node.sound_join.mpr ⟨hleft, hright, by simpa using hn⟩)
  · intro _
    apply yields_bind_any
    intro using'
    apply yields_ite
    · intro _
      apply yields_bind_any
      exact fun names => yields_pure (Node.sound_join.mpr ⟨hleft, hright, hcondition⟩)
    · exact fun _ => yields_unexpected _

theorem joinedWith_sound (kind : JoinKind) (natural : Bool) {left : Node} (hleft : left.Sound) :
    (joinedWith kind natural left).Yields soundly Node.Sound := by
  unfold joinedWith
  apply yields_bind_any
  intro _
  apply sourcePrimary_sound.bind
  intro right hright
  have hjoin : (Node.join { kind, natural, left, right }).Sound :=
    Node.sound_join.mpr ⟨hleft, hright, forall_mem_none⟩
  apply yields_ite
  · exact fun _ => yields_pure hjoin
  · intro _
    apply (joinCondition_sound hjoin).bind
    exact fun j hj => yields_pure hj

theorem joins_sound {left : Node} (hleft : left.Sound) :
    (joins left).Yields soundly Node.Sound := by
  have hsome {p : Parser Node} (hp : p.Yields soundly Node.Sound) :
      (do return some (← p) : Parser (Option Node)).Yields soundly
        fun o => ∀ n ∈ o, n.Sound := by
    apply hp.bind
    exact fun n hn => yields_pure (forall_mem_some hn)
  unfold joins
  apply yields_iterate hleft
  intro left hleft
  unfold moreJoins
  apply yields_bind_any
  intro natural
  apply yields_ite
  · intro _
    apply hsome
    unfold naturalJoin
    apply yields_bind_any
    intro kind
    split
    · exact joinedWith_sound _ true hleft
    · exact yields_unexpected _
  · intro _
    apply yields_bind_any
    intro cross
    apply yields_ite
    · intro _
      apply hsome
      unfold crossJoin
      apply yields_bind_any
      intro _
      apply sourcePrimary_sound.bind
      intro right hright
      exact yields_pure (Node.sound_join.mpr ⟨hleft, hright, forall_mem_none⟩)
    · intro _
      apply yields_bind_any
      intro kind
      split
      · exact hsome (joinedWith_sound _ false hleft)
      · exact yields_pure forall_mem_none

theorem source_sound : source.Yields soundly Node.Sound := by
  unfold source
  apply sourcePrimary_sound.bind
  exact fun n hn => joins_sound hn

theorem sources_sound : sources.Yields soundly fun ns => ∀ n ∈ ns, n.Sound :=
  yields_commaList_mem source_sound

/-! ### Changes -/

theorem indexElements_sound :
    indexElements.Yields soundly fun es => ∀ e ∈ es, (Node.indexElement e).Sound := by
  have hkey : indexKey.Yields soundly fun c => ∀ n ∈ c.2, n.Sound := by
    unfold indexKey
    apply yields_bind_any
    intro k
    apply yields_ite
    · intro _
      apply yields_bind_any
      intro parens
      apply yields_ite
      · intro _
        apply yields_bind_any
        intro function
        apply (call_sound _).bind
        exact fun c hc => yields_pure (forall_mem_some hc)
      · intro _
        apply yields_bind_any
        exact fun s => yields_pure forall_mem_none
    · intro _
      apply yields_ite
      · intro _
        apply (yields_parenthesized expression_sound).bind
        exact fun n hn => yields_pure (forall_mem_some hn)
      · intro _
        apply yields_bind_any
        exact fun s => yields_pure forall_mem_none
  unfold indexElements
  apply yields_parenthesized
  apply yields_commaList_mem
  unfold indexElement
  apply hkey.bind
  intro key hkey
  apply yields_bind_any
  intro direction
  apply yields_bind_any
  exact fun nulls => yields_pure (Node.sound_indexElement.mpr hkey)

theorem optionalConflictTarget_sound : optionalConflictTarget.Yields soundly
    fun o => ∀ t ∈ o, (Node.conflictTarget t).Sound := by
  unfold optionalConflictTarget
  apply yields_bind_any
  intro parens
  apply yields_ite
  · intro _
    apply indexElements_sound.bind
    intro elements helements
    apply optionalCondition_sound.bind
    intro condition hcondition
    exact yields_pure
      (forall_mem_some (Node.sound_conflictTarget.mpr ⟨helements, hcondition⟩))
  · intro _
    apply yields_bind_any
    intro on
    apply yields_ite
    · intro _
      apply yields_bind_any
      intro _
      apply yields_bind_any
      intro s
      exact yields_pure (forall_mem_some (Node.sound_conflictTarget.mpr ⟨nofun, nofun⟩))
    · exact fun _ => yields_pure forall_mem_none

/-- An update of rows that conflict needs to know which conflicts are meant. -/
theorem onConflict_sound : onConflict.Yields soundly fun c => (Node.onConflict c).Sound := by
  unfold onConflict
  apply yields_bind_any
  intro _
  apply optionalConflictTarget_sound.bind
  intro target htarget
  apply yields_bind_any
  intro _
  apply yields_bind_any
  intro nothing
  apply yields_ite
  · intro _
    exact yields_pure (Node.sound_onConflict.mpr
      ⟨⟨nofun, fun _ => ⟨rfl, rfl⟩⟩, htarget, nofun, nofun⟩)
  · intro _
    unfold conflictUpdate
    apply yields_bind_any
    intro first
    apply yields_bind_any
    intro _
    apply yields_ite
    · exact fun _ => yields_fail _
    · intro hsome
      apply yields_bind_any
      intro _
      apply assignments_sound.bind
      intro assigned hassigned
      apply optionalCondition_sound.bind
      intro condition hcondition
      have htarget' : target.isSome = true := by
        cases target with
        | none => exact absurd rfl hsome
        | some t => rfl
      exact yields_pure (Node.sound_onConflict.mpr
        ⟨⟨fun _ => ⟨hassigned.1, htarget'⟩, nofun⟩, htarget, hassigned.2, hcondition⟩)

theorem optionalColumns_sound :
    optionalColumns.Yields soundly fun ts => ∀ t ∈ ts, (Node.target t).Sound := by
  unfold optionalColumns
  apply yields_bind_any
  intro parens
  apply yields_ite
  · intro _
    apply yields_bind_any
    intro k
    apply yields_ite
    · exact fun _ => yields_pure (List.forall_mem_nil _)
    · intro _
      apply yields_parenthesized
      apply yields_commaList_mem
      unfold columnToFill
      apply yields_bind_any
      exact fun s => yields_pure (Node.sound_target.mpr nofun)
  · exact fun _ => yields_pure (List.forall_mem_nil _)

theorem insertedRows_sound :
    insertedRows.Yields soundly fun o => ∀ s ∈ o, (Node.select s).Sound := by
  unfold insertedRows
  apply yields_bind_any
  intro default
  apply yields_ite
  · intro _
    apply yields_bind_any
    exact fun _ => yields_pure forall_mem_none
  · intro _
    apply query_sound.bind
    exact fun s hs => yields_pure (forall_mem_some hs)

theorem insert_sound : insert.Yields soundly fun s => (Node.insert s).Sound := by
  unfold insert
  apply yields_bind_any
  intro _
  apply yields_bind_any
  intro table
  apply optionalColumns_sound.bind
  intro columns hcolumns
  apply insertedRows_sound.bind
  intro rows hrows
  apply (yields_after .ON onConflict_sound).bind
  intro conflict hconflict
  apply optionalReturning_sound.bind
  intro returning hreturning
  exact yields_pure (Node.sound_insert.mpr ⟨nofun, hcolumns, hrows, hconflict, hreturning⟩)

theorem update_sound : update.Yields soundly fun s => (Node.update s).Sound := by
  unfold update
  apply yields_bind_any
  intro table
  apply yields_bind_any
  intro _
  apply assignments_sound.bind
  intro assigned hassigned
  apply (yields_listAfter .FROM sources_sound).bind
  intro items hitems
  apply optionalCondition_sound.bind
  intro condition hcondition
  apply optionalReturning_sound.bind
  intro returning hreturning
  exact yields_pure (Node.sound_update.mpr
    ⟨nofun, hassigned.2, hitems, hcondition, hreturning⟩)

theorem delete_sound : delete.Yields soundly fun s => (Node.delete s).Sound := by
  unfold delete
  apply yields_bind_any
  intro _
  apply yields_bind_any
  intro table
  apply (yields_listAfter .USING sources_sound).bind
  intro items hitems
  apply optionalCondition_sound.bind
  intro condition hcondition
  apply optionalReturning_sound.bind
  intro returning hreturning
  exact yields_pure (Node.sound_delete.mpr ⟨nofun, hitems, hcondition, hreturning⟩)

theorem change?_sound : change?.Yields soundly fun o => ∀ c ∈ o, c.node.Sound := by
  unfold change?
  apply yields_bind_any
  intro k
  split
  · apply yields_bind_any
    intro _
    apply insert_sound.bind
    exact fun s hs => yields_pure (forall_mem_some hs)
  · apply yields_bind_any
    intro _
    apply update_sound.bind
    exact fun s hs => yields_pure (forall_mem_some hs)
  · apply yields_bind_any
    intro _
    apply delete_sound.bind
    exact fun s hs => yields_pure (forall_mem_some hs)
  · exact yields_pure forall_mem_none

end Grammar
end SqlSyntax
