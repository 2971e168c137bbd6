import SqlSyntax.Proofs.Grammar.SoundCall

/-!
# The shape of expressions

Every production of the grammar of expressions builds nodes that have their shape.  Most
pass on what their parts give; the others count items, look at a left operand or know
which token is at hand.

## Main results

* `subscript_sound` — a subscript has one bound or is a slice.
* `named_sound`, `primary_sound` — operands.
* `operation_sound` — the operators behind an operand.
* `expressionAbove_sound` — **expressions have their shape.**
-/

namespace SqlSyntax
namespace Grammar

open SqlSyntax.Parser

/-! ### Steps into a value -/

theorem subscript_sound : subscript.Yields soundly fun s => (Node.subscript s).Sound :=
  yields_subscript.mono fun _ h => Node.sound_subscript.mpr h

/-- What a step has below it is sound. -/
def SoundStep (s : Step) : Prop :=
  ∀ n ∈ s.children, n.Sound

theorem moreSteps_sound (steps : List Step) (hsteps : ∀ s ∈ steps, SoundStep s) :
    (moreSteps steps).Yields soundly fun o => ∀ ss ∈ o, ∀ s ∈ ss, SoundStep s := by
  have hcons {s : Step} (hs : SoundStep s) : ∀ ss ∈ some (s :: steps), ∀ s ∈ ss, SoundStep s :=
    forall_mem_some (List.forall_mem_cons.mpr ⟨hs, hsteps⟩)
  unfold moreSteps
  apply yields_bind_any
  intro bracket
  apply yields_ite
  · intro _
    apply subscript_sound.bind
    exact fun s hs => yields_pure (hcons (List.forall_mem_singleton.mpr hs))
  · intro _
    apply yields_bind_any
    intro dot
    apply yields_ite
    · intro _
      apply yields_bind_any
      intro star
      apply yields_ite
      · exact fun _ => yields_pure (hcons nofun)
      · intro _
        apply yields_bind_any
        exact fun field => yields_pure (hcons nofun)
    · exact fun _ => yields_pure forall_mem_none

theorem indirection_sound {arg : Node} (harg : arg.Sound) :
    (indirection arg).Yields soundly Node.Sound := by
  unfold indirection
  apply (yields_iterate (P := fun ss => ∀ s ∈ ss, SoundStep s) (List.forall_mem_nil _) moreSteps_sound).bind
  intro steps hsteps
  apply yields_pure
  split
  · exact harg
  · exact Node.sound_indirection.mpr
      ⟨harg, fun s hs => hsteps s (List.mem_reverse.mp hs)⟩

/-! ### Operands -/

theorem typedConstant_sound {type : TypeName} (htype : SoundType type) :
    (typedConstant type).Yields soundly Node.Sound := by
  unfold typedConstant
  apply yields_bind_any
  intro k
  split
  · apply yields_bind_any
    intro _
    apply yields_ite
    · intro _
      apply intervalModifiers_sound.bind
      exact fun ns hns => yields_pure (Node.sound_cast.mpr ⟨Node.sound_const _, hns⟩)
    · exact fun _ => yields_pure (Node.sound_cast.mpr ⟨Node.sound_const _, htype⟩)
  · exact yields_unexpected _

/-- A star ends a dotted name. -/
theorem named_sound (first : String) : (named first).Yields soundly Node.Sound := by
  unfold named
  apply yields_bind_any
  intro p
  apply yields_ite
  · intro _
    apply yields_pure
    refine Node.sound_column.mpr fun hmem => ?_
    rw [List.dropLast_concat] at hmem
    obtain ⟨s, -, hs⟩ := List.mem_map.mp hmem
    cases hs
  · intro _
    apply yields_bind_any
    intro k
    split
    · apply (call_sound _).bind
      exact fun c hc => yields_pure hc
    · exact typedConstant_sound (sound_named _)
    · exact indirection_sound (Node.sound_ofNames _)

theorem arms_sound :
    arms.Yields soundly fun as => as ≠ [] ∧ ∀ a ∈ as, (Node.caseArm a).Sound := by
  have hsteps : (iterate moreArms []).Yields soundly
      fun as => ∀ a ∈ as, (Node.caseArm a).Sound := by
    apply yields_iterate
    · exact nofun
    · intro as has
      unfold moreArms
      apply yields_bind_any
      intro more
      apply yields_ite
      · intro _
        apply expression_sound.bind
        intro condition hcondition
        apply yields_bind_any
        intro _
        apply expression_sound.bind
        intro result hresult
        exact yields_pure (forall_mem_some
          (List.forall_mem_cons.mpr ⟨Node.sound_caseArm.mpr ⟨hcondition, hresult⟩, has⟩))
      · exact fun _ => yields_pure forall_mem_none
  unfold arms
  apply hsteps.bind
  intro as has
  split
  · exact yields_unexpected _
  · next hne =>
    exact yields_pure ⟨hne, fun a ha => has a (List.mem_reverse.mp ha)⟩

theorem caseExpression_sound : caseExpression.Yields soundly Node.Sound := by
  unfold caseExpression
  apply (yields_optionalBound _).bind
  intro operand hoperand
  apply arms_sound.bind
  intro arms harms
  apply (yields_after .ELSE expression_sound).bind
  intro otherwise hotherwise
  apply yields_bind_any
  intro _
  exact yields_pure (Node.sound_caseExpr.mpr ⟨harms.1, hoperand, harms.2, hotherwise⟩)

theorem castBody_sound : castBody.Yields soundly Node.Sound := by
  unfold castBody
  apply expression_sound.bind
  intro arg harg
  apply yields_bind_any
  intro _
  apply typeName_sound.bind
  exact fun type htype => yields_pure (Node.sound_cast.mpr ⟨harg, htype⟩)

theorem elements_sound : elements.Yields soundly fun es => ∀ n ∈ es, n.Sound := by
  have helement : element.Yields soundly Node.Sound := by
    unfold element
    apply yields_bind_any
    intro bracket
    apply yields_ite
    · exact fun _ => yields_call fun es hes => yields_pure (Node.sound_array.mpr hes)
    · exact fun _ => expression_sound
  have hlist : elementList.Yields soundly fun es => ∀ n ∈ es, n.Sound := by
    unfold elementList
    apply yields_bind_any
    intro closed
    apply yields_ite
    · exact fun _ => yields_pure (List.forall_mem_nil _)
    · exact fun _ => yields_commaList_mem helement
  unfold elements
  apply yields_bind_any
  intro _
  apply hlist.bind
  intro es hes
  apply yields_bind_any
  intro _
  exact yields_pure hes

theorem array_sound : array.Yields soundly Node.Sound := by
  unfold array
  apply yields_bind_any
  intro parens
  apply yields_ite
  · intro _
    apply (yields_parenthesized query_sound).bind
    intro s hs
    exact yields_pure (Node.sound_uncompared (by decide) (by decide) hs)
  · intro _
    apply elements_sound.bind
    exact fun es hes => yields_pure (Node.sound_array.mpr hes)

theorem rowFields_sound : rowFields.Yields soundly fun ns => ∀ n ∈ ns, n.Sound := by
  unfold rowFields
  apply yields_bind_any
  intro closed
  apply yields_ite
  · exact fun _ => yields_pure (List.forall_mem_nil _)
  · exact fun _ => expressions_mem_sound

/-! ### Functions with a syntax of their own -/

theorem extractArgs_sound : extractArgs.Yields soundly fun ns => ∀ n ∈ ns, n.Sound := by
  unfold extractArgs
  apply yields_bind_any
  intro k
  apply yields_bind_any
  intro field
  apply yields_bind_any
  intro _
  apply expression_sound.bind
  intro source hsource
  exact yields_pure (by simpa [Node.string] using hsource)

theorem positionArgs_sound : positionArgs.Yields soundly fun ns => ∀ n ∈ ns, n.Sound := by
  unfold positionArgs
  apply (operand_sound _).bind
  intro part hpart
  apply yields_bind_any
  intro _
  apply (operand_sound _).bind
  intro whole hwhole
  exact yields_pure (by simpa using ⟨hwhole, hpart⟩)

theorem itemsAfter_sound {ns : List Node} (hne : ns ≠ []) (hns : ∀ n ∈ ns, n.Sound) :
    (itemsAfter .comma expression ns).Yields soundly fun ns => ns ≠ [] ∧ ∀ n ∈ ns, n.Sound :=
  yields_itemsAfter .comma expression_sound hne hns

theorem substringArgs_sound : substringArgs.Yields soundly fun ns => ∀ n ∈ ns, n.Sound := by
  unfold substringArgs
  apply expression_sound.bind
  intro whole hwhole
  apply yields_bind_any
  intro from'
  apply yields_ite
  · intro _
    apply expression_sound.bind
    intro start hstart
    apply (yields_after .FOR expression_sound).bind
    intro count hcount
    exact yields_pure (by simpa using ⟨hwhole, hstart, hcount⟩)
  · intro _
    apply yields_bind_any
    intro for'
    apply yields_ite
    · intro _
      apply expression_sound.bind
      intro count hcount
      apply (yields_after .FROM expression_sound).bind
      intro start hstart
      have hfirst : (start.getD (Node.integer 1)).Sound := by
        cases start with
        | none => exact Node.sound_const _
        | some n => exact hstart n rfl
      exact yields_pure (by simpa using ⟨hwhole, hfirst, hcount⟩)
    · intro _
      apply (itemsAfter_sound (List.cons_ne_nil whole []) (by simpa using hwhole)).mono
      exact fun ns hns => hns.2

theorem trimArgs_sound : trimArgs.Yields soundly fun ns => ∀ n ∈ ns, n.Sound := by
  unfold trimArgs
  apply yields_bind_any
  intro from'
  apply yields_ite
  · exact fun _ => expressions_mem_sound
  · intro _
    apply expression_sound.bind
    intro first hfirst
    apply yields_bind_any
    intro from''
    apply yields_ite
    · intro _
      apply expressions_mem_sound.bind
      intro ns hns
      exact yields_pure
        (List.forall_mem_append.mpr ⟨hns, List.forall_mem_singleton.mpr hfirst⟩)
    · intro _
      apply (itemsAfter_sound (List.cons_ne_nil first []) (by simpa using hfirst)).mono
      exact fun ns hns => hns.2

theorem specialBody_sound (f : SpecialFunction) : (specialBody f).Yields soundly Node.Sound := by
  cases f with
  | coalesce =>
    apply expressions_mem_sound.bind
    exact fun ns hns => yields_pure (Node.sound_coalesce.mpr hns)
  | greatest | least =>
    apply expressions_mem_sound.bind
    exact fun ns hns => yields_pure (Node.sound_extremum.mpr hns)
  | nullif =>
    apply expression_sound.bind
    intro left hleft
    apply yields_bind_any
    intro _
    apply expression_sound.bind
    exact fun right hright => yields_pure (Node.sound_binary rfl (by decide) hleft hright)
  | extract =>
    apply extractArgs_sound.bind
    exact fun ns hns => yields_pure (Node.sound_system hns)
  | position =>
    apply positionArgs_sound.bind
    exact fun ns hns => yields_pure (Node.sound_system hns)
  | substring =>
    apply substringArgs_sound.bind
    exact fun ns hns => yields_pure (Node.sound_system hns)
  | trim =>
    apply yields_bind_any
    intro function
    apply trimArgs_sound.bind
    exact fun ns hns => yields_pure (Node.sound_system hns)

theorem valueFunction_sound (f : ValueFunction) :
    (valueFunction f).Yields soundly Node.Sound := by
  unfold valueFunction
  apply yields_ite
  · intro _
    apply yields_bind_any
    intro parens
    apply yields_ite
    · intro _
      apply yields_bind_any
      exact fun p => yields_pure (Node.sound_valueFunction f _)
    · exact fun _ => yields_pure (Node.sound_valueFunction f _)
  · exact fun _ => yields_pure (Node.sound_valueFunction f _)

/-! ### Operands -/

theorem namedByWord_sound (w : Keyword) (beforeParen : Bool) :
    (namedByWord w beforeParen).Yields soundly Node.Sound := by
  unfold namedByWord
  apply yields_ite
  · intro _
    apply yields_bind_any
    exact fun _ => named_sound _
  · exact fun _ => yields_unexpected _

theorem operandOfWord_sound (w : Keyword) (beforeParen : Bool) :
    (operandOfWord w beforeParen).Yields soundly Node.Sound := by
  unfold operandOfWord
  split
  iterate 3
    · apply yields_bind_any
      exact fun _ => yields_pure (Node.sound_const _)
  · apply yields_bind_any
    exact fun _ => caseExpression_sound
  · apply yields_bind_any
    exact fun _ => yields_parenthesized castBody_sound
  · apply yields_bind_any
    intro _
    apply (yields_parenthesized query_sound).bind
    intro s hs
    exact yields_pure (Node.sound_uncompared (by decide) (by decide) hs)
  · apply yields_bind_any
    intro _
    apply array_sound.bind
    exact fun n hn => indirection_sound hn
  · apply yields_ite
    · intro _
      apply yields_bind_any
      intro _
      apply (yields_parenthesized rowFields_sound).bind
      exact fun ns hns => indirection_sound (Node.sound_row.mpr ⟨by simp, hns⟩)
    · exact fun _ => namedByWord_sound _ _
  · split
    · apply yields_bind_any
      exact fun _ => yields_parenthesized (specialBody_sound _)
    · exact namedByWord_sound _ _

theorem startingWith_sound (w : Keyword) : (startingWith w).Yields soundly Node.Sound := by
  unfold startingWith
  split
  · apply yields_bind_any
    exact fun _ => valueFunction_sound _
  · apply yields_bind_any
    intro typed
    apply yields_ite
    · intro _
      apply plainType_sound.bind
      exact fun type htype => typedConstant_sound htype
    · intro _
      apply yields_bind_any
      exact fun beforeParen => operandOfWord_sound w beforeParen

theorem primary_sound : primary.Yields soundly Node.Sound := by
  unfold primary
  apply yields_bind_any
  intro k
  split
  · apply yields_bind_any
    exact fun _ => yields_pure (Node.sound_const _)
  · apply yields_bind_any
    exact fun _ => indirection_sound (Node.sound_param _)
  · apply enclosedContent_sound.bind
    exact fun e he => indirection_sound he.operand
  · apply yields_bind_any
    exact fun _ => named_sound _
  · exact startingWith_sound _
  · exact yields_unexpected _

/-! ### Operations -/

variable {arg left : Node}

theorem test_sound (harg : arg.Sound) : (test arg).Yields soundly Node.Sound := by
  unfold test
  apply yields_bind_any
  intro negated
  apply yields_bind_any
  intro k
  split
  · apply yields_bind_any
    exact fun _ => yields_pure (Node.sound_nullTest.mpr harg)
  · apply yields_bind_any
    intro _
    unfold distinction
    apply yields_bind_any
    intro _
    apply (operand_sound _).bind
    intro right hright
    cases negated with
    | true => exact yields_pure (Node.sound_binary rfl (by decide) harg hright)
    | false => exact yields_pure (Node.sound_binary rfl (by decide) harg hright)
  · split
    · apply yields_bind_any
      exact fun _ => yields_pure (Node.sound_truthTest.mpr harg)
    · exact yields_unexpected _
  · exact yields_unexpected _

theorem between_sound (negated : Bool) (harg : arg.Sound) :
    (between negated arg).Yields soundly Node.Sound := by
  unfold between
  apply yields_bind_any
  intro anyOrder
  apply (operand_sound _).bind
  intro low hlow
  apply yields_bind_any
  intro _
  apply (operand_sound _).bind
  exact fun high hhigh => yields_pure (Node.sound_rangeTest negated anyOrder harg hlow hhigh)

theorem inBody_sound (negated : Bool) (harg : arg.Sound) :
    (inBody negated arg).Yields soundly Node.Sound := by
  unfold inBody
  apply yields_bind_any
  intro k
  apply yields_ite
  · intro _
    apply query_sound.bind
    intro s hs
    have hfound : (Node.subquery { use := .forAny, test := some arg, query := s }).Sound :=
      Node.sound_subquery.mpr
        ⟨⟨fun _ => rfl, nofun, fun h => absurd rfl h⟩, by simpa using harg, hs⟩
    cases negated with
    | true => exact yields_pure (Node.sound_negation hfound)
    | false => exact yields_pure hfound
  · intro _
    apply expressions_sound.bind
    intro ns hns
    refine yields_pure (Node.sound_operation.mpr ⟨⟨rfl, nofun, nofun, fun _ => ?_⟩, ?_, ?_⟩)
    · exact ⟨ns, hns.1, rfl⟩
    · simpa using harg
    · simpa using hns.2

theorem sound_pattern {m : PatternMatch} {pattern : Node} {escape : Option Node}
    (hpattern : pattern.Sound) (hescape : ∀ e ∈ escape, e.Sound) :
    (m.pattern pattern escape).Sound := by
  cases escape with
  | none =>
    show (if m.always then _ else pattern).Sound
    split
    · exact Node.sound_system (List.forall_mem_singleton.mpr hpattern)
    · exact hpattern
  | some e => exact Node.sound_system (by simpa using ⟨hpattern, hescape e rfl⟩)

theorem patternMatch_sound {m : PatternMatch} (hrange : m.kind.isRange = false)
    (hlist : m.kind ≠ .inList) (negated : Bool) (harg : arg.Sound) :
    (patternMatch m negated arg).Yields soundly Node.Sound := by
  unfold patternMatch
  apply (operand_sound _).bind
  intro pattern hpattern
  apply (yields_after .ESCAPE (operand_sound _)).bind
  intro escape hescape
  exact yields_pure (Node.sound_binary hrange hlist harg (sound_pattern hpattern hescape))

theorem predicate_sound (negated : Bool) (harg : arg.Sound) (p : Predicate) :
    (predicate negated arg p).Yields soundly Node.Sound := by
  cases p with
  | between => exact between_sound negated harg
  | inList => exact yields_parenthesized (inBody_sound negated harg)
  | like => exact patternMatch_sound rfl (by decide) negated harg
  | ilike => exact patternMatch_sound rfl (by decide) negated harg
  | similar =>
    apply yields_bind_any
    exact fun _ => patternMatch_sound rfl (by decide) negated harg

theorem binaryOperation_sound (op : String) (level : Level) (hleft : left.Sound) :
    (binaryOperation op level left).Yields soundly Node.Sound := by
  have hbinary : (do return Node.binary op left (← operand level) : Parser Node).Yields soundly
      Node.Sound := by
    apply (operand_sound level).bind
    exact fun right hright => yields_pure (Node.sound_binary rfl (by decide) hleft hright)
  have hquantified (all : Bool) : (quantifiedBody op all left).Yields soundly Node.Sound := by
    unfold quantifiedBody
    apply yields_bind_any
    intro k
    apply yields_ite
    · intro _
      apply query_sound.bind
      intro s hs
      have htest : ∀ n ∈ some left, n.Sound := by simpa using hleft
      cases all with
      | true => exact yields_pure (Node.sound_subquery.mpr
          ⟨⟨nofun, fun _ => ⟨rfl, rfl⟩, fun _ h => absurd rfl h⟩, htest, hs⟩)
      | false => exact yields_pure (Node.sound_subquery.mpr
          ⟨⟨fun _ => rfl, nofun, fun h => absurd rfl h⟩, htest, hs⟩)
    · intro _
      apply expression_sound.bind
      intro right hright
      cases all with
      | true => exact yields_pure (Node.sound_binary rfl (by decide) hleft hright)
      | false => exact yields_pure (Node.sound_binary rfl (by decide) hleft hright)
  unfold binaryOperation
  apply yields_bind_any
  intro k
  split
  · apply yields_bind_any
    intro parens
    apply yields_ite
    · intro _
      apply yields_bind_any
      exact fun _ => yields_parenthesized (hquantified _)
    · exact fun _ => hbinary
  · exact hbinary

theorem operation_sound (k : TokenKind) (level : Level) (hleft : left.Sound) :
    (operation k level left).Yields soundly Node.Sound := by
  unfold operation
  split
  · apply (operand_sound level).bind
    exact fun right hright => yields_pure (Node.sound_joined (by decide) hleft hright)
  · apply (operand_sound level).bind
    exact fun right hright => yields_pure (Node.sound_joined (by decide) hleft hright)
  · exact test_sound hleft
  · exact yields_pure (Node.sound_nullTest.mpr hleft)
  · exact yields_pure (Node.sound_nullTest.mpr hleft)
  · apply yields_bind_any
    intro _
    apply yields_bind_any
    intro _
    apply (operand_sound level).bind
    exact fun zone hzone => yields_pure (Node.sound_system (by simpa using ⟨hzone, hleft⟩))
  · apply yields_bind_any
    exact fun names => yields_pure (Node.sound_collate.mpr hleft)
  · apply typeName_sound.bind
    exact fun type htype => yields_pure (Node.sound_cast.mpr ⟨hleft, htype⟩)
  · unfold negatedPredicate
    apply yields_bind_any
    intro k
    split
    · apply yields_bind_any
      exact fun _ => predicate_sound true hleft _
    · exact yields_misplaced
  · split
    · exact predicate_sound false hleft _
    · exact binaryOperation_sound _ level hleft

theorem operations_sound (above : Level) (hleft : left.Sound) :
    (operations above left).Yields soundly Node.Sound := by
  unfold operations
  apply yields_iterate hleft
  intro n hn
  unfold moreOperations
  apply yields_bind_any
  intro k
  split
  · exact yields_pure forall_mem_none
  · apply yields_ite
    · exact fun _ => yields_pure forall_mem_none
    · intro _
      apply yields_bind_any
      intro found
      apply yields_ite
      · intro _
        apply yields_bind_any
        intro _
        apply (operation_sound k _ hn).bind
        exact fun n' hn' => yields_pure (forall_mem_some hn')
      · exact fun _ => yields_pure forall_mem_none

theorem leftOperand_sound : leftOperand.Yields soundly Node.Sound := by
  unfold leftOperand
  apply yields_bind_any
  intro k
  split
  · exact primary_sound
  · apply yields_bind_any
    intro _
    apply (operand_sound _).bind
    intro arg harg
    apply yields_pure
    unfold signed
    split
    · exact Node.sound_negation harg
    · exact Node.sound_negate harg
    · exact Node.sound_prefixed harg

/-- **Expressions have their shape.** -/
theorem expressionAbove_sound (above : Level) :
    (expressionAbove above).Yields soundly Node.Sound := by
  unfold expressionAbove
  apply leftOperand_sound.bind
  exact fun left hleft => operations_sound above hleft

end Grammar
end SqlSyntax
