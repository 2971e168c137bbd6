import SqlSyntax.Grammar.Expression
import SqlSyntax.Proofs.Grammar.LocalWords

/-!
# Expressions keep to their statement
-/

namespace SqlSyntax.Grammar

open SqlSyntax.Parser

/-! ### Types -/

instance : optionalModifiers.Local := by
  unfold optionalModifiers
  infer_instance

instance (first : IntervalField) : (rangeEnd first).Local := by
  unfold rangeEnd
  refine local_kind rfl (inferInstanceAs (Local misplaced)) fun k _ => ?_
  split <;> infer_instance

instance (first : IntervalField) : (intervalRange first).Local := by
  unfold intervalRange
  infer_instance

instance (r : IntervalRange) : (optionalPrecision r).Local := by
  unfold optionalPrecision
  infer_instance

instance : intervalModifiers.Local := by
  unfold intervalModifiers
  refine local_kind rfl (inferInstanceAs (Local (pure []))) fun k _ => ?_
  split <;> infer_instance

instance (type : String) : (modifiedType type).Local := by
  unfold modifiedType
  infer_instance

instance (type : String) : (fixedLengthType type).Local := by
  unfold fixedLengthType
  infer_instance

instance (fixed varying : String) : (stringType fixed varying).Local := by
  unfold stringType
  infer_instance

instance (first : Nat) (bits : Int) : (floatOfPrecision first bits).Local := by
  unfold floatOfPrecision
  infer_instance

instance : floatType.Local := by
  unfold floatType
  infer_instance

instance : optionalZone.Local := by
  unfold optionalZone
  refine local_kind rfl inferInstance fun k _ => ?_
  split <;> infer_instance

instance (plain zoned : String) : (timeType plain zoned).Local := by
  unfold timeType
  infer_instance

instance : intervalType.Local := by
  unfold intervalType
  infer_instance

instance : namedType.Local := by
  unfold namedType
  infer_instance

instance (w : Keyword) : (typeOfWord w).LocalFrom 1 := by
  unfold typeOfWord
  split <;> infer_instance

instance : plainType.Local := by
  unfold plainType
  refine local_kind rfl (inferInstanceAs (Local namedType)) fun k _ => ?_
  split <;> infer_instance

instance : dimension.Local := by
  unfold dimension
  infer_instance

instance (bounds : List Int) : (moreDimensions bounds).Local := by
  unfold moreDimensions
  infer_instance

instance : dimensions.Local := by
  unfold dimensions
  infer_instance

instance : typeName.Local := by
  unfold typeName
  infer_instance

/-! ### Calls -/

instance : optionalNulls.Local := by
  unfold optionalNulls
  infer_instance

instance : optionalDirection.Local := by
  unfold optionalDirection
  infer_instance

instance : sortDirection.Local := by
  have hkind : (kind >>= fun k => readAs k.operator? .operator >>= fun s =>
      pure (SortDirection.byOperator s)).Local :=
    local_kind rfl (inferInstanceAs (unexpected _).Local) fun _ _ => inferInstance
  unfold sortDirection
  refine LocalFrom.bind inferInstance fun d => ?_
  split <;> infer_instance

instance : sortKey.Local := by
  unfold sortKey
  infer_instance

instance : sortKeys.Local := by
  unfold sortKeys
  infer_instance

instance : optionalOrder.Local := by
  unfold optionalOrder
  infer_instance

instance : frameBound.Local := by
  unfold frameBound
  infer_instance

instance : frameExclusion.Local := by
  unfold frameExclusion
  refine local_kind rfl (inferInstanceAs (Local (unexpected _))) fun k _ => ?_
  split <;> infer_instance

instance : frameBounds.Local := by
  unfold frameBounds
  infer_instance

instance : optionalFrame.Local := by
  unfold optionalFrame
  refine local_kind rfl (inferInstanceAs (Local (pure none))) fun k _ => ?_
  split <;> infer_instance

instance : optionalBase.Local := by
  unfold optionalBase
  refine local_kind rfl inferInstance fun k _ => ?_
  split <;> infer_instance

instance : partitionKeys.Local := by
  unfold partitionKeys
  infer_instance

instance : windowBody.Local := by
  unfold windowBody
  infer_instance

instance : windowInParens.Local := by
  unfold windowInParens
  infer_instance

instance : callWindow.Local := by
  unfold callWindow
  infer_instance

theorem keeps_callName : callName.Keeps (fun _ => 1) 2 := by
  refine ⟨fun h => absurd h (by decide), fun k _ => ?_⟩
  show (readAs (nameOf? Keyword.isTypeName k) .name).Keeps (fun _ => 1) 2
  cases nameOf? Keyword.isTypeName k with
  | none => exact fun _ => trivial
  | some s => exact ⟨Nat.two_pos, Nat.le_refl 1⟩

theorem stuck_callName : callName.Stuck :=
  ⟨fun _ => trivial, fun _ => trivial⟩

/-- An argument asks for the second token without regard to the first.  At the end
of the statement it fails whatever the answer. -/
instance : argument.Local := by
  let named : Parser Node := do
    let s ← callName
    skip
    return Node.namedArg s (← expression)
  have hnamed : named.Keeps (fun _ => 0) 2 := by
    refine keeps_callName.bind fun s => ?_
    exact ⟨Nat.one_pos, fun _ => Nat.le_refl 0⟩
  have hplain : ∀ known, expression.LocalFrom known := fun known => ⟨fun _ => Nat.zero_le _⟩
  refine ⟨fun _ k => ?_, fun _ => ⟨rfl, (hplain 1).keeps⟩, fun k _ => ?_⟩
  · show Stuck (match k with
      | .equalsGreater | .colonEquals => named
      | _ => expression)
    split
    · exact stuck_callName.bind _
    · exact stuck_callName.bind _
    · exact trivial
  · show Keeps (fun _ => 0) 2 (match k with
      | .equalsGreater | .colonEquals => named
      | _ => expression)
    split
    · exact hnamed
    · exact hnamed
    · exact (hplain 2).keeps

instance : distinctOrAll.Local := by
  unfold distinctOrAll
  infer_instance

instance (function : List String) : (callBody function).Local := by
  unfold callBody
  infer_instance

instance : optionalFilter.Local := by
  unfold optionalFilter
  infer_instance

instance (function : List String) : (call function).Local := by
  unfold call
  infer_instance

/-! ### Operands -/

instance (stop : TokenKind) [stop.Inner] : (optionalBound stop).Local := by
  unfold optionalBound
  infer_instance

instance : subscript.Local := by
  unfold subscript
  infer_instance

instance (steps : List Step) : (moreSteps steps).Local := by
  unfold moreSteps
  infer_instance

instance (arg : Node) : (indirection arg).Local := by
  unfold indirection
  infer_instance

instance (type : TypeName) : (typedConstant type).Local := by
  unfold typedConstant
  refine local_kind rfl inferInstance fun k _ => ?_
  split <;> infer_instance

instance (w : Keyword) : Peeking (startsTypedConstant w) := by
  have hnext : Peeking (nextKind >>= fun k => pure (continuesTypedConstant k)) :=
    ⟨fun h => absurd h Nat.one_ne_zero, fun _ => ⟨rfl, Nat.le_refl 1⟩,
      fun _ _ => Nat.le_succ 1⟩
  unfold startsTypedConstant
  split <;> infer_instance

instance (p : Path) : (morePath p).Local := by
  unfold morePath
  infer_instance

instance (first : String) : (named first).Local := by
  have hkind : ∀ names, (kind >>= fun k => match k with
      | .leftParen => do return Node.call (← call names)
      | .string _ => typedConstant (TypeName.named names)
      | _ => indirection (Node.ofNames names)).Local := by
    intro names
    refine local_kind rfl (inferInstanceAs (indirection _).Local) fun k _ => ?_
    split <;> infer_instance
  unfold named
  infer_instance

instance (arms : List CaseArm) : (moreArms arms).Local := by
  unfold moreArms
  infer_instance

instance : arms.Local := by
  unfold arms
  refine LocalFrom.bind inferInstance fun found => ?_
  split <;> infer_instance

instance : caseExpression.Local := by
  unfold caseExpression
  infer_instance

instance : castBody.Local := by
  unfold castBody
  infer_instance

instance : element.Local := by
  unfold element
  infer_instance

instance : elementList.Local := by
  unfold elementList
  infer_instance

instance : elements.Local := by
  unfold elements
  infer_instance

instance : array.Local := by
  unfold array
  infer_instance

instance : rowFields.Local := by
  unfold rowFields
  infer_instance

instance : extractArgs.Local := by
  exact local_kind rfl (inferInstanceAs (unexpected _).Local) fun _ _ => inferInstance

instance : positionArgs.Local := by
  unfold positionArgs
  infer_instance

instance : substringArgs.Local := by
  unfold substringArgs
  infer_instance

instance : trimFunction.Local := by
  unfold trimFunction
  infer_instance

instance : trimArgs.Local := by
  unfold trimArgs
  infer_instance

instance (x : SpecialFunction) : (specialBody x).Local := by
  unfold specialBody
  split <;> infer_instance

instance (f : SpecialFunction) : (specialCall f).Local := by
  unfold specialCall
  infer_instance

instance (f : ValueFunction) : (valueFunction f).Local := by
  unfold valueFunction
  infer_instance

instance (w : Keyword) (beforeParen : Bool) : (namedByWord w beforeParen).LocalFrom 1 := by
  unfold namedByWord
  infer_instance

instance (w : Keyword) (beforeParen : Bool) : (operandOfWord w beforeParen).LocalFrom 1 := by
  unfold operandOfWord
  split
  case h_9 =>
    split <;> infer_instance
  all_goals infer_instance

instance (w : Keyword) : (startingWith w).LocalFrom 1 := by
  unfold startingWith
  split <;> infer_instance

instance : enclosedContent.Local := by
  unfold enclosedContent
  infer_instance

instance : primary.Local := by
  unfold primary
  refine local_kind rfl (inferInstanceAs (Local (unexpected _))) fun k _ => ?_
  split <;> infer_instance

/-! ### Operators -/

instance (negated : Bool) (arg : Node) : (distinction negated arg).Local := by
  unfold distinction
  infer_instance

instance (arg : Node) : (test arg).Local := by
  unfold test
  refine LocalFrom.bind inferInstance fun negated => ?_
  refine local_kind rfl (inferInstanceAs (unexpected _).Local) fun k _ => ?_
  split
  case h_3 =>
    split <;> infer_instance
  all_goals infer_instance

instance : symmetric.Local := by
  unfold symmetric
  infer_instance

instance (negated : Bool) (arg : Node) : (between negated arg).Local := by
  unfold between
  infer_instance

instance (negated : Bool) (arg : Node) : (inBody negated arg).Local := by
  unfold inBody
  refine local_kind rfl inferInstance fun k _ => ?_
  split <;> infer_instance

instance (m : PatternMatch) (negated : Bool) (arg : Node) : (patternMatch m negated arg).Local := by
  unfold patternMatch
  infer_instance

instance (negated : Bool) (arg : Node) (x : Predicate) : (predicate negated arg x).Local := by
  unfold predicate
  split <;> infer_instance

instance (arg : Node) : (negatedPredicate arg).Local := by
  unfold negatedPredicate
  refine local_kind rfl (inferInstanceAs (Local misplaced)) fun k _ => ?_
  split <;> infer_instance

instance (op : String) (all : Bool) (left : Node) : (quantifiedBody op all left).Local := by
  unfold quantifiedBody
  refine local_kind rfl inferInstance fun k _ => ?_
  split <;> infer_instance

instance (op : String) (level : Level) (left : Node) : (binaryOperation op level left).Local := by
  have hplain : (operand level >>= fun v => pure (Node.binary op left v)).Local := inferInstance
  unfold binaryOperation
  refine local_kind rfl hplain fun k _ => ?_
  split <;> infer_instance

instance (k : TokenKind) (level : Level) (left : Node) : (operation k level left).Local := by
  unfold operation
  split
  case h_10 =>
    split <;> infer_instance
  all_goals infer_instance

instance (k : TokenKind) : Peeking (isOperator k) := by
  unfold isOperator
  split <;> infer_instance

instance (above : Level) (left : Node) : (moreOperations above left).Local := by
  unfold moreOperations
  refine local_kind rfl (inferInstanceAs (Local (pure none))) fun k _ => ?_
  split <;> infer_instance

instance (above : Level) (left : Node) : (operations above left).Local := by
  unfold operations
  infer_instance

instance : leftOperand.Local := by
  unfold leftOperand
  refine local_kind rfl (inferInstanceAs (Local primary)) fun k _ => ?_
  split <;> infer_instance

instance (above : Level) : (expressionAbove above).Local := by
  unfold expressionAbove
  infer_instance


end SqlSyntax.Grammar
