import SqlSyntax.Grammar.Expression
import SqlSyntax.Proofs.Grammar.Yielding
import SqlSyntax.Proofs.Tree.Shape

/-!
# The shape of calls and type names

A production builds nodes that have their shape if the rules do that it leaves parts to.
Here are the nodes that productions build from sound ones, and the productions that all
others share: sort keys, windows, calls and type names.

## Main definitions

* `soundly` — rules that give trees with their shape.
* `SoundType` — a type name with sound modifiers.

## Main results

* `sound_joined`, `sound_negate` — the operators that look at their operand.
* `call_sound`, `typeName_sound` — calls and type names have their shape.
-/

namespace SqlSyntax

/-- What parentheses hold has its shape. -/
def Enclosed.Sound : Enclosed → Prop
  | query s => (Node.select s).Sound
  | item n => n.Sound

/-- Rules give trees that have their shape, whatever the tokens are. -/
def soundly : Known where
  token _ := True
  value
    | .expression _, n => n.Sound
    | .query, s => (Node.select s).Sound
    | .enclosed, e => e.Sound
    | .elements, es => ∀ n ∈ es, n.Sound
    | .enclosedSource, e => e.Sound

/-! ### Built nodes -/

namespace Node

variable {left right arg : Node}

/-- An operation with both operands that tests neither a range nor a list. -/
theorem sound_binary {kind : OperationKind} {name : String} (hrange : kind.isRange = false)
    (hlist : kind ≠ .inList) (hleft : left.Sound) (hright : right.Sound) :
    (operation kind name (some left) (some right)).Sound := by
  refine sound_operation.mpr ⟨⟨rfl, nofun, fun h => ?_, fun h => absurd h hlist⟩, ?_, ?_⟩
  · exact absurd (hrange.symm.trans h) Bool.false_ne_true
  · simpa using hleft
  · simpa using hright

theorem sound_prefixed {op : String} (harg : arg.Sound) : (prefixed op arg).Sound :=
  sound_operation.mpr ⟨⟨rfl, fun _ => rfl, nofun, nofun⟩, nofun, by simpa using harg⟩

theorem sound_negation (harg : arg.Sound) : (negation arg).Sound :=
  sound_junction.mpr ⟨rfl, List.forall_mem_singleton.mpr harg⟩

/-- A minus sign makes a constant of a constant and an operation of anything else. -/
theorem sound_negate (harg : arg.Sound) : (negate arg).Sound := by
  unfold negate
  split
  · split
    · split
      · exact sound_const _
      · exact sound_const _
    · exact sound_const _
    · exact sound_prefixed harg
  · exact sound_prefixed harg

/-- Two operands joined have their shape: a left operand of the same connective takes the
right one as one more, and its first operand was of another kind before. -/
theorem sound_joined {op : Junction} (hop : op ≠ .not) (hleft : left.Sound)
    (hright : right.Sound) : (joined op left right).Sound := by
  have hpair (h : ∀ inner, left ≠ junction op inner) : (junction op [left, right]).Sound := by
    refine sound_junction.mpr ⟨?_, by simpa using ⟨hleft, hright⟩⟩
    cases op with
    | not => exact absurd rfl hop
    | and | or => exact ⟨Nat.le_refl 2, fun inner heq => h inner (Option.some.inj heq)⟩
  unfold joined
  split
  · next op' args =>
    by_cases hsame : op' = op
    · rw [if_pos hsame]
      subst hsame
      obtain ⟨hshape, hargs⟩ := sound_junction.mp hleft
      refine sound_junction.mpr ⟨?_, List.forall_mem_append.mpr
        ⟨hargs, List.forall_mem_singleton.mpr hright⟩⟩
      have hkept (h : 2 ≤ args.length ∧ ∀ inner, args.head? ≠ some (junction op' inner)) :
          2 ≤ (args ++ [right]).length ∧
            ∀ inner, (args ++ [right]).head? ≠ some (junction op' inner) := by
        obtain ⟨hlen, hfirst⟩ := h
        match args with
        | [] => exact absurd hlen (by decide)
        | first :: more => exact ⟨by simp only [List.length_append]; omega, hfirst⟩
      cases op' with
      | not => exact absurd rfl hop
      | and | or => exact hkept hshape
    · rw [if_neg hsame]
      exact hpair fun inner heq => hsame (by injection heq)
  · next hother => exact hpair fun inner heq => hother op inner heq

theorem sound_system {name : String} {args : List Node} (hargs : ∀ n ∈ args, n.Sound) :
    (call (Call.system name args)).Sound :=
  sound_call.mpr ⟨nofun, hargs, nofun, nofun, nofun⟩

theorem sound_ofNames (names : List String) : (ofNames names).Sound := by
  refine sound_column.mpr fun hmem => ?_
  obtain ⟨s, -, hs⟩ := List.mem_map.mp (List.dropLast_subset _ hmem)
  cases hs

/-- A range has two bounds. -/
theorem sound_rangeTest {low high : Node} (negated anyOrder : Bool) (harg : arg.Sound)
    (hlow : low.Sound) (hhigh : high.Sound) :
    (Grammar.rangeTest negated anyOrder arg low high).Sound := by
  have hbounds : (list [low, high]).Sound := by simpa using ⟨hlow, hhigh⟩
  have hsound {kind : OperationKind} (name : String) (h : kind ≠ .inList) :
      (operation kind name (some arg) (some (list [low, high]))).Sound :=
    sound_operation.mpr ⟨⟨rfl, nofun, fun _ => ⟨low, high, rfl⟩, fun h' => absurd h' h⟩,
      by simpa using harg, by simpa using hbounds⟩
  cases negated <;> cases anyOrder
  · exact hsound _ (by decide)
  · exact hsound _ (by decide)
  · exact hsound _ (by decide)
  · exact hsound _ (by decide)

/-- A subquery whose rows are not compared with anything. -/
theorem sound_uncompared {use : SubqueryUse} {s : Select} (hany : use ≠ .forAny)
    (hall : use ≠ .forAll) (hs : (select s).Sound) : (subquery { use, query := s }).Sound :=
  sound_subquery.mpr
    ⟨⟨fun h => absurd h hany, fun h => absurd h hall, fun _ _ => ⟨rfl, rfl⟩⟩, forall_mem_none, hs⟩

end Node

theorem Enclosed.Sound.operand {e : Enclosed} (h : e.Sound) : e.operand.Sound := by
  cases e with
  | query s => exact Node.sound_uncompared (by decide) (by decide) h
  | item n => exact h

namespace Grammar

open SqlSyntax.Parser

/-! ### Rules and lists -/

theorem operand_sound (above : Level) : (operand above).Yields soundly Node.Sound :=
  yields_operand above

theorem expression_sound : expression.Yields soundly Node.Sound :=
  operand_sound 0

theorem query_sound : query.Yields soundly fun s => (Node.select s).Sound :=
  yields_query

theorem enclosedContent_sound : enclosedContent.Yields soundly Enclosed.Sound :=
  yields_enclosedContent

theorem expressions_sound :
    expressions.Yields soundly fun ns => ns ≠ [] ∧ ∀ n ∈ ns, n.Sound :=
  yields_commaList expression_sound

theorem expressions_mem_sound : expressions.Yields soundly fun ns => ∀ n ∈ ns, n.Sound :=
  yields_commaList_mem expression_sound

theorem optionalCondition_sound :
    optionalCondition.Yields soundly fun o => ∀ n ∈ o, n.Sound :=
  yields_after .WHERE expression_sound

theorem valueOrDefault_sound : valueOrDefault.Yields soundly Node.Sound := by
  unfold valueOrDefault
  apply yields_bind_any
  intro found
  apply yields_ite
  · exact fun _ => yields_pure Node.sound_default
  · exact fun _ => expression_sound

/-! ### Sort keys and windows -/

theorem sortKey_sound : sortKey.Yields soundly fun k => (Node.sortKey k).Sound := by
  unfold sortKey
  apply expression_sound.bind
  intro key hkey
  apply yields_bind_any
  intro direction
  apply yields_bind_any
  intro nulls
  exact yields_pure (Node.sound_sortKey.mpr hkey)

theorem sortKeys_sound : sortKeys.Yields soundly fun ks => ∀ k ∈ ks, (Node.sortKey k).Sound := by
  unfold sortKeys
  apply yields_bind_any
  intro _
  exact yields_commaList_mem sortKey_sound

theorem optionalOrder_sound :
    optionalOrder.Yields soundly fun ks => ∀ k ∈ ks, (Node.sortKey k).Sound :=
  yields_listAfter .ORDER sortKeys_sound

theorem frameBound_sound : frameBound.Yields soundly fun b => ∀ n ∈ b.distances, n.Sound := by
  unfold frameBound
  apply yields_bind_any
  intro unbounded
  apply yields_ite
  · intro _
    apply yields_bind_any
    intro preceding
    apply yields_ite
    · exact fun _ => yields_pure nofun
    · intro _
      apply yields_bind_any
      exact fun _ => yields_pure nofun
  · intro _
    apply yields_bind_any
    intro current
    apply yields_ite
    · intro _
      apply yields_bind_any
      intro _
      apply yields_bind_any
      exact fun _ => yields_pure nofun
    · intro _
      apply expression_sound.bind
      intro distance hdistance
      apply yields_bind_any
      intro preceding
      apply yields_ite
      · exact fun _ => yields_pure (List.forall_mem_singleton.mpr hdistance)
      · intro _
        apply yields_bind_any
        exact fun _ => yields_pure (List.forall_mem_singleton.mpr hdistance)

theorem frameBounds_sound : frameBounds.Yields soundly fun bs =>
    (∀ n ∈ bs.1.distances, n.Sound) ∧ ∀ b ∈ bs.2, ∀ n ∈ b.distances, n.Sound := by
  unfold frameBounds
  apply yields_bind_any
  intro between
  apply yields_ite
  · intro _
    apply frameBound_sound.bind
    intro start hstart
    apply yields_bind_any
    intro _
    apply frameBound_sound.bind
    intro stop hstop
    exact yields_pure ⟨hstart, by simpa using hstop⟩
  · intro _
    apply frameBound_sound.bind
    intro start hstart
    exact yields_pure ⟨hstart, nofun⟩

theorem optionalFrame_sound :
    optionalFrame.Yields soundly fun o => ∀ f ∈ o, ∀ n ∈ f.distances, n.Sound := by
  unfold optionalFrame
  apply yields_bind_any
  intro k
  split
  · exact yields_pure forall_mem_none
  · apply yields_bind_any
    intro _
    apply frameBounds_sound.bind
    intro bounds hbounds
    apply yields_bind_any
    intro exclusion
    apply yields_pure
    obtain ⟨hstart, hstop⟩ := hbounds
    simp only [Option.mem_some_iff, forall_eq', Frame.distances, List.forall_mem_append]
    refine ⟨hstart, ?_⟩
    cases hbound : bounds.2 with
    | none => exact List.forall_mem_nil _
    | some b => exact hstop b hbound

theorem windowBody_sound : windowBody.Yields soundly fun w => (Node.window w).Sound := by
  unfold windowBody
  apply yields_bind_any
  intro base
  apply (yields_listAfter .PARTITION (p := partitionKeys) ?_).bind
  · intro keys hkeys
    apply optionalOrder_sound.bind
    intro order horder
    apply optionalFrame_sound.bind
    intro frame hframe
    exact yields_pure (Node.sound_window.mpr ⟨hkeys, horder, hframe⟩)
  · unfold partitionKeys
    apply yields_bind_any
    exact fun _ => expressions_mem_sound

theorem windowInParens_sound : windowInParens.Yields soundly fun w => (Node.window w).Sound :=
  yields_parenthesized windowBody_sound

theorem callWindow_sound : callWindow.Yields soundly fun w => (Node.window w).Sound := by
  unfold callWindow
  apply yields_bind_any
  intro parens
  apply yields_ite
  · exact fun _ => windowInParens_sound
  · intro _
    apply yields_bind_any
    exact fun _ => yields_pure (Node.sound_window.mpr ⟨nofun, nofun, nofun⟩)

/-! ### Calls -/

theorem argument_sound : argument.Yields soundly Node.Sound := by
  unfold argument
  apply yields_bind_any
  intro k
  have hnamed : (do
      let s ← callName
      skip
      return Node.namedArg s (← expression) : Parser Node).Yields soundly Node.Sound := by
    apply yields_bind_any
    intro s
    apply yields_bind_any
    intro _
    apply expression_sound.bind
    exact fun arg harg => yields_pure (Node.sound_namedArg.mpr harg)
  split
  · exact hnamed
  · exact hnamed
  · exact expression_sound

theorem callBody_sound (function : List String) :
    (callBody function).Yields soundly fun c => (Node.call c).Sound := by
  unfold callBody
  apply yields_bind_any
  intro star
  apply yields_ite
  · exact fun _ => yields_pure
      (Node.sound_call.mpr ⟨fun _ => ⟨rfl, rfl, rfl⟩, nofun, nofun, nofun, nofun⟩)
  · intro _
    apply yields_bind_any
    intro closed
    apply yields_ite
    · exact fun _ => yields_pure (Node.sound_call.mpr ⟨nofun, nofun, nofun, nofun, nofun⟩)
    · intro _
      apply yields_bind_any
      intro distinct
      apply (yields_commaList_mem argument_sound).bind
      intro args hargs
      apply optionalOrder_sound.bind
      intro order horder
      exact yields_pure (Node.sound_call.mpr ⟨nofun, hargs, horder, nofun, nofun⟩)

theorem optionalFilter_sound : optionalFilter.Yields soundly fun o => ∀ n ∈ o, n.Sound := by
  unfold optionalFilter
  apply yields_bind_any
  intro filter
  apply yields_ite
  · intro _
    apply yields_bind_any
    intro parens
    apply yields_ite
    · intro _
      apply yields_bind_any
      intro _
      apply yields_bind_any
      intro _
      apply yields_bind_any
      intro _
      apply expression_sound.bind
      intro condition hcondition
      apply yields_bind_any
      intro _
      exact yields_pure (forall_mem_some hcondition)
    · exact fun _ => yields_pure forall_mem_none
  · exact fun _ => yields_pure forall_mem_none

theorem call_sound (function : List String) :
    (call function).Yields soundly fun c => (Node.call c).Sound := by
  unfold call
  apply (yields_parenthesized (callBody_sound function)).bind
  intro c hc
  apply optionalFilter_sound.bind
  intro filter hfilter
  apply (yields_after .OVER callWindow_sound).bind
  intro window hwindow
  obtain ⟨hshape, hargs, horder, -, -⟩ := Node.sound_call.mp hc
  exact yields_pure (Node.sound_call.mpr ⟨hshape, hargs, horder, hfilter, hwindow⟩)

/-! ### Type names -/

/-- The modifiers of a type are sound. -/
def SoundType (t : TypeName) : Prop :=
  ∀ n ∈ t.modifiers, n.Sound

theorem optionalModifiers_sound :
    optionalModifiers.Yields soundly fun ns => ∀ n ∈ ns, n.Sound := by
  unfold optionalModifiers
  apply yields_bind_any
  intro parens
  apply yields_ite
  · exact fun _ => yields_parenthesized expressions_mem_sound
  · exact fun _ => yields_pure (List.forall_mem_nil _)

theorem intervalModifiers_sound :
    intervalModifiers.Yields soundly fun ns => ∀ n ∈ ns, n.Sound := by
  have hprecision (r : IntervalRange) :
      (optionalPrecision r).Yields soundly fun ns => ∀ n ∈ ns, n.Sound := by
    unfold optionalPrecision
    apply yields_ite
    · intro _
      apply yields_bind_any
      intro parens
      apply yields_ite
      · intro _
        apply yields_bind_any
        exact fun n => yields_pure (List.forall_mem_singleton.mpr (Node.sound_const _))
      · exact fun _ => yields_pure (List.forall_mem_nil _)
    · exact fun _ => yields_pure (List.forall_mem_nil _)
  unfold intervalModifiers
  apply yields_bind_any
  intro k
  split
  · exact yields_pure (List.forall_mem_nil _)
  · apply yields_bind_any
    intro _
    apply yields_bind_any
    intro r
    apply (hprecision r).bind
    exact fun ns hns => yields_pure (List.forall_mem_cons.mpr ⟨Node.sound_const _, hns⟩)

theorem modifiedType_sound (type : String) : (modifiedType type).Yields soundly SoundType := by
  unfold modifiedType
  apply optionalModifiers_sound.bind
  exact fun ns hns => yields_pure hns

theorem fixedLengthType_sound (type : String) :
    (fixedLengthType type).Yields soundly SoundType := by
  unfold fixedLengthType
  apply optionalModifiers_sound.bind
  intro ns hns
  apply yields_pure
  show ∀ n ∈ (if ns.isEmpty then [Node.integer 1] else ns), n.Sound
  split
  · exact List.forall_mem_singleton.mpr (Node.sound_const _)
  · exact hns

theorem stringType_sound (fixed varying : String) :
    (stringType fixed varying).Yields soundly SoundType := by
  unfold stringType
  apply yields_bind_any
  intro found
  apply yields_ite
  · exact fun _ => modifiedType_sound varying
  · exact fun _ => fixedLengthType_sound fixed

theorem sound_named (names : List String) : SoundType (TypeName.named names) :=
  nofun

theorem floatType_sound : floatType.Yields soundly SoundType := by
  unfold floatType
  apply yields_bind_any
  intro parens
  apply yields_ite
  · intro _
    apply yields_bind_any
    intro first
    apply yields_bind_any
    intro bits
    apply yields_bind_any
    intro _
    unfold floatOfPrecision
    apply yields_ite
    · exact fun _ => yields_fail _
    · intro _
      apply yields_ite
      · exact fun _ => yields_pure (sound_named _)
      · intro _
        apply yields_ite
        · exact fun _ => yields_pure (sound_named _)
        · exact fun _ => yields_fail _
  · exact fun _ => yields_pure (sound_named _)

theorem timeType_sound (plain zoned : String) :
    (timeType plain zoned).Yields soundly SoundType := by
  unfold timeType
  apply optionalModifiers_sound.bind
  intro ns hns
  apply yields_bind_any
  exact fun hasZone => yields_pure hns

theorem intervalType_sound : intervalType.Yields soundly SoundType := by
  unfold intervalType
  apply yields_bind_any
  intro parens
  apply yields_ite
  · intro _
    apply yields_bind_any
    intro precision
    refine yields_pure (List.forall_mem_cons.mpr ⟨Node.sound_const _, ?_⟩)
    exact List.forall_mem_singleton.mpr (Node.sound_const _)
  · intro _
    apply intervalModifiers_sound.bind
    exact fun ns hns => yields_pure hns

theorem namedType_sound : namedType.Yields soundly SoundType := by
  unfold namedType
  apply yields_bind_any
  intro first
  apply yields_bind_any
  intro names
  apply optionalModifiers_sound.bind
  exact fun ns hns => yields_pure hns

theorem typeOfWord_sound (w : Keyword) : (typeOfWord w).Yields soundly SoundType := by
  unfold typeOfWord
  split
  · apply yields_bind_any
    exact fun _ => yields_pure (sound_named _)
  · apply yields_bind_any
    exact fun _ => floatType_sound
  · apply yields_bind_any
    intro precision
    apply yields_ite
    · intro _
      apply yields_bind_any
      intro _
      apply yields_bind_any
      exact fun _ => yields_pure (sound_named _)
    · exact fun _ => namedType_sound
  iterate 3
    · apply yields_bind_any
      exact fun _ => modifiedType_sound "numeric"
  · apply yields_bind_any
    exact fun _ => stringType_sound "bit" "varbit"
  iterate 3
    · apply yields_bind_any
      exact fun _ => stringType_sound "bpchar" "varchar"
  · apply yields_bind_any
    intro _
    apply yields_bind_any
    intro character
    apply yields_ite
    · exact fun _ => stringType_sound "bpchar" "varchar"
    · intro _
      apply yields_bind_any
      exact fun _ => stringType_sound "bpchar" "varchar"
  · apply yields_bind_any
    exact fun _ => modifiedType_sound "varchar"
  · apply yields_bind_any
    exact fun _ => timeType_sound "timestamp" "timestamptz"
  · apply yields_bind_any
    exact fun _ => timeType_sound "time" "timetz"
  · apply yields_bind_any
    exact fun _ => intervalType_sound
  · exact namedType_sound

theorem plainType_sound : plainType.Yields soundly SoundType := by
  unfold plainType
  apply yields_bind_any
  intro k
  split
  · exact typeOfWord_sound _
  · exact namedType_sound

theorem typeName_sound : typeName.Yields soundly SoundType := by
  unfold typeName
  apply yields_bind_any
  intro setof
  apply plainType_sound.bind
  intro type htype
  apply yields_bind_any
  exact fun bounds => yields_pure htype

end Grammar
end SqlSyntax
