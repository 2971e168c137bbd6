import SqlSyntax.Grammar.Expression
import SqlSyntax.Proofs.Grammar.EnclosableWords

/-!
# Expressions in parentheses
-/

namespace SqlSyntax.Grammar

open SqlSyntax.Parser

/-! ### Types -/

instance : optionalModifiers.Enclosable := by
  unfold optionalModifiers
  infer_instance

instance (first : IntervalField) : (rangeEnd first).Enclosable := by
  unfold rangeEnd
  refine enclosable_kind (.inl rfl) fun k => ?_
  split <;> infer_instance

instance (first : IntervalField) : (intervalRange first).Enclosable := by
  unfold intervalRange
  infer_instance

instance (r : IntervalRange) : (optionalPrecision r).Enclosable := by
  unfold optionalPrecision
  infer_instance

instance : intervalModifiers.Enclosable := by
  unfold intervalModifiers
  refine enclosable_kind (.inl rfl) fun k => ?_
  split <;> infer_instance

instance (type : String) : (modifiedType type).Enclosable := by
  unfold modifiedType
  infer_instance

instance (type : String) : (fixedLengthType type).Enclosable := by
  unfold fixedLengthType
  infer_instance

instance (fixed varying : String) : (stringType fixed varying).Enclosable := by
  unfold stringType
  infer_instance

instance (first : Nat) (bits : Int) : (floatOfPrecision first bits).Enclosable := by
  unfold floatOfPrecision
  infer_instance

/-- The place of a precision has a say in its problem only. -/
theorem alike_floatOfPrecision (m n : Nat) (bits : Int) :
    (floatOfPrecision m bits).Alike (floatOfPrecision n bits) := by
  unfold floatOfPrecision
  refine alike_ite (fun _ => alike_fail _ _) fun _ => ?_
  exact alike_ite (fun _ => Alike.refl _) fun _ =>
    alike_ite (fun _ => Alike.refl _) fun _ => alike_fail _ _

instance : floatType.Enclosable := by
  unfold floatType
  refine Enclosable.bind inferInstance fun found => ?_
  split
  · refine enclosable_index (fun m n => ?_) fun _ => inferInstance
    exact alike_bind _ fun bits => alike_bind _ fun _ => alike_floatOfPrecision m n bits
  · infer_instance

instance : optionalZone.Enclosable := by
  unfold optionalZone
  refine enclosable_kind (.inl rfl) fun k => ?_
  split <;> infer_instance

instance (plain zoned : String) : (timeType plain zoned).Enclosable := by
  unfold timeType
  infer_instance

instance : intervalType.Enclosable := by
  unfold intervalType
  infer_instance

instance : namedType.Enclosable := by
  unfold namedType
  infer_instance

instance (w : Keyword) : (typeOfWord w).Enclosable := by
  unfold typeOfWord
  split <;> infer_instance

instance : plainType.Enclosable := by
  unfold plainType
  refine enclosable_kind (.inl rfl) fun k => ?_
  split <;> infer_instance

instance : dimension.Enclosable := by
  unfold dimension
  infer_instance

instance (bounds : List Int) : (moreDimensions bounds).Enclosable := by
  unfold moreDimensions
  infer_instance

instance (bounds : List Int) : (iterate moreDimensions bounds).Enclosable :=
  enclosable_iterate (turns_of_loopStep .dimensions) (fun _ => inferInstance) bounds

instance : dimensions.Enclosable := by
  unfold dimensions
  infer_instance

instance : typeName.Enclosable := by
  unfold typeName
  infer_instance

/-! ### Calls -/

instance : optionalNulls.Enclosable := by
  unfold optionalNulls
  infer_instance

instance : optionalDirection.Enclosable := by
  unfold optionalDirection
  infer_instance

instance : sortDirection.Enclosable := by
  have hkind : (kind >>= fun k => readAs k.operator? .operator >>= fun s =>
      pure (SortDirection.byOperator s)).Enclosable :=
    enclosable_kind (.inl rfl) fun _ => inferInstance
  unfold sortDirection
  refine Enclosable.bind inferInstance fun d => ?_
  split <;> infer_instance

instance : sortKey.Enclosable := by
  unfold sortKey
  infer_instance

instance : sortKeys.Enclosable := by
  unfold sortKeys
  infer_instance

instance : optionalOrder.Enclosable := by
  unfold optionalOrder
  infer_instance

instance : frameBound.Enclosable := by
  unfold frameBound
  refine Enclosable.bind inferInstance fun unbounded => ?_
  split <;> infer_instance

instance : frameExclusion.Enclosable := by
  unfold frameExclusion
  refine enclosable_kind (.inl rfl) fun k => ?_
  split <;> infer_instance

instance : frameBounds.Enclosable := by
  unfold frameBounds
  infer_instance

instance : optionalFrame.Enclosable := by
  unfold optionalFrame
  refine enclosable_kind (.inl rfl) fun k => ?_
  split <;> infer_instance

instance : optionalBase.Enclosable := by
  unfold optionalBase
  refine enclosable_kind (.inl rfl) fun k => ?_
  split <;> infer_instance

instance : partitionKeys.Enclosable := by
  unfold partitionKeys
  infer_instance

instance : windowBody.Enclosable := by
  unfold windowBody
  infer_instance

instance : windowInParens.Enclosable := by
  unfold windowInParens
  infer_instance

instance : callWindow.Enclosable := by
  unfold callWindow
  infer_instance

instance : argument.Enclosable := by
  unfold argument
  refine enclosable_nextKind (Alike.refl _) fun k => ?_
  split <;> infer_instance

theorem stuck_argument : argument.Stuck := by
  unfold argument
  refine stuck_nextKind fun k => ?_
  split
  · exact stuck_callName.bind _
  · exact stuck_callName.bind _
  · exact trivial

instance : distinctOrAll.Enclosable := by
  unfold distinctOrAll
  infer_instance

/-- At the end of a text, arguments are missing. -/
instance (function : List String) : (callBody function).Enclosable := by
  unfold callBody
  refine Enclosable.bind inferInstance fun star => ?_
  split
  · infer_instance
  · exact enclosable_isAt_close (stuck_bind_local fun _ => (stuck_argument.bind _).bind _)

instance : optionalFilter.Enclosable := by
  unfold optionalFilter
  refine Enclosable.bind inferInstance fun found => ?_
  split
  · refine Enclosable.bind inferInstance fun before => ?_
    split <;> infer_instance
  · infer_instance

instance (function : List String) : (call function).Enclosable := by
  unfold call
  infer_instance

/-! ### Operands -/

instance (stop : TokenKind) [stop.Within] : (optionalBound stop).Enclosable := by
  unfold optionalBound
  infer_instance

instance : subscript.Enclosable := by
  unfold subscript
  infer_instance

instance (steps : List Step) : (moreSteps steps).Enclosable := by
  unfold moreSteps
  infer_instance

instance (steps : List Step) : (iterate moreSteps steps).Enclosable :=
  enclosable_iterate (turns_of_loopStep .steps) (fun _ => inferInstance) steps

instance (arg : Node) : (indirection arg).Enclosable := by
  unfold indirection
  infer_instance

instance (type : TypeName) : (typedConstant type).Enclosable := by
  unfold typedConstant
  refine enclosable_kind (.inl rfl) fun k => ?_
  split <;> infer_instance

instance (w : Keyword) : (startsTypedConstant w).Enclosable := by
  have hnext : (nextKind >>= fun k => pure (continuesTypedConstant k)).Enclosable :=
    enclosable_nextKind (Alike.refl _) fun _ => inferInstance
  unfold startsTypedConstant
  split <;> infer_instance

instance (p : Path) : (morePath p).Enclosable := by
  unfold morePath
  infer_instance

instance (p : Path) : (iterate morePath p).Enclosable :=
  enclosable_iterate (turns_of_loopStep .path) (fun _ => inferInstance) p

instance (first : String) : (named first).Enclosable := by
  have hkind : ∀ names, (kind >>= fun k => match k with
      | .leftParen => do return Node.call (← call names)
      | .string _ => typedConstant (TypeName.named names)
      | _ => indirection (Node.ofNames names)).Enclosable := by
    intro names
    refine enclosable_kind (.inl rfl) fun k => ?_
    split <;> infer_instance
  unfold named
  infer_instance

instance (arms : List CaseArm) : (moreArms arms).Enclosable := by
  unfold moreArms
  infer_instance

instance (found : List CaseArm) : (iterate moreArms found).Enclosable :=
  enclosable_iterate (turns_of_loopStep .arms) (fun _ => inferInstance) found

instance : arms.Enclosable := by
  unfold arms
  refine Enclosable.bind inferInstance fun found => ?_
  split <;> infer_instance

instance : caseExpression.Enclosable := by
  unfold caseExpression
  infer_instance

instance : castBody.Enclosable := by
  unfold castBody
  infer_instance

instance : element.Enclosable := by
  unfold element
  infer_instance

instance : elementList.Enclosable := by
  unfold elementList
  infer_instance

instance : elements.Enclosable := by
  unfold elements
  infer_instance

instance : array.Enclosable := by
  unfold array
  infer_instance

instance : rowFields.Enclosable := by
  unfold rowFields
  exact enclosable_isAt_close trivial

instance : extractArgs.Enclosable := by
  exact enclosable_kind (.inl rfl) fun _ => inferInstance

instance : positionArgs.Enclosable := by
  unfold positionArgs
  infer_instance

instance : substringArgs.Enclosable := by
  unfold substringArgs
  infer_instance

instance : trimFunction.Enclosable := by
  unfold trimFunction
  infer_instance

instance : trimArgs.Enclosable := by
  unfold trimArgs
  infer_instance

instance (x : SpecialFunction) : (specialBody x).Enclosable := by
  unfold specialBody
  split <;> infer_instance

instance (f : SpecialFunction) : (specialCall f).Enclosable := by
  unfold specialCall
  infer_instance

instance (f : ValueFunction) : (valueFunction f).Enclosable := by
  unfold valueFunction
  infer_instance

instance (w : Keyword) (beforeParen : Bool) : (namedByWord w beforeParen).Enclosable := by
  unfold namedByWord
  infer_instance

instance (w : Keyword) (beforeParen : Bool) : (operandOfWord w beforeParen).Enclosable := by
  unfold operandOfWord
  split
  case h_9 =>
    split <;> infer_instance
  all_goals infer_instance

instance (w : Keyword) : (startingWith w).Enclosable := by
  unfold startingWith
  split <;> infer_instance

instance : enclosedContent.Enclosable := by
  unfold enclosedContent
  infer_instance

instance : primary.Enclosable := by
  unfold primary
  refine enclosable_kind (.inl rfl) fun k => ?_
  split <;> infer_instance

/-! ### Operators -/

instance (negated : Bool) (arg : Node) : (distinction negated arg).Enclosable := by
  unfold distinction
  infer_instance

instance (arg : Node) : (test arg).Enclosable := by
  unfold test
  refine Enclosable.bind inferInstance fun negated => ?_
  refine enclosable_kind (.inl rfl) fun k => ?_
  split
  case h_3 =>
    split <;> infer_instance
  all_goals infer_instance

instance : symmetric.Enclosable := by
  unfold symmetric
  infer_instance

instance (negated : Bool) (arg : Node) : (between negated arg).Enclosable := by
  unfold between
  infer_instance

instance (negated : Bool) (arg : Node) : (inBody negated arg).Enclosable := by
  unfold inBody
  refine enclosable_kind (.inl rfl) fun k => ?_
  split <;> infer_instance

instance (m : PatternMatch) (negated : Bool) (arg : Node) : (patternMatch m negated arg).Enclosable := by
  unfold patternMatch
  infer_instance

instance (negated : Bool) (arg : Node) (x : Predicate) : (predicate negated arg x).Enclosable := by
  unfold predicate
  split <;> infer_instance

instance (arg : Node) : (negatedPredicate arg).Enclosable := by
  unfold negatedPredicate
  refine enclosable_kind (.inl rfl) fun k => ?_
  split <;> infer_instance

instance (op : String) (all : Bool) (left : Node) : (quantifiedBody op all left).Enclosable := by
  unfold quantifiedBody
  refine enclosable_kind (.inl rfl) fun k => ?_
  split <;> infer_instance

instance (op : String) (level : Level) (left : Node) : (binaryOperation op level left).Enclosable := by
  unfold binaryOperation
  refine enclosable_kind (.inl rfl) fun k => ?_
  split <;> infer_instance

instance (k : TokenKind) (level : Level) (left : Node) : (operation k level left).Enclosable := by
  unfold operation
  split
  case h_10 =>
    split <;> infer_instance
  all_goals infer_instance

instance (k : TokenKind) : (isOperator k).Enclosable := by
  unfold isOperator
  split <;> infer_instance

instance (above : Level) (left : Node) : (moreOperations above left).Enclosable := by
  unfold moreOperations
  refine enclosable_kind (.inl rfl) fun k => ?_
  split <;> infer_instance

instance (above : Level) (left : Node) : (operations above left).Enclosable := by
  unfold operations
  exact enclosable_iterate (turns_of_loopStep (.operations above)) (fun _ => inferInstance) left

instance : leftOperand.Enclosable := by
  unfold leftOperand
  refine enclosable_kind (.inl rfl) fun k => ?_
  split <;> infer_instance

instance (above : Level) : (expressionAbove above).Enclosable := by
  unfold expressionAbove
  infer_instance

end SqlSyntax.Grammar
