import SqlSyntax.Proofs.Grammar.TallyCall

/-!
# Operands keep the account

A parameter comes into hand where it is read, and stays there while subscripts behind it
are read.  Functions with a syntax of their own may turn their arguments round, and may
add one that is not written.

## Main results

* `tallies_indirection` — subscripts behind a value.
* `tallies_named` — what starts with a name.
* `tallies_specialBody` — functions with a syntax of their own.
* `tallies_primary` — **operands, a parameter among them.**
-/

namespace SqlSyntax

/-! ### Nodes put together -/

@[simp] theorem Node.params_ofNames (names : List String) : (ofNames names).params = 0 :=
  params_column _

@[simp] theorem Enclosed.params_operand (e : Enclosed) : e.operand.params = e.params := by
  cases e with
  | query s => simp [operand, params]
  | item n => rfl

@[simp] theorem Call.params_system (function : String) (args : List Node) :
    (system function args).params = total Node.params args := by
  simp [system, params]

namespace Grammar

open SqlSyntax.Parser

/-! ### Steps into a value -/

section Steps

variable (stop : TokenKind) [stop.Plain]

theorem tallies_optionalBound :
    (optionalBound stop).Tallies fun o => total Node.params o.toList :=
  tallies_test_bind (tallies_pure rfl) (tallies_expression.bind fun n => tallies_pure (by simp))

end Steps

theorem tallies_subscript : subscript.Tallies Subscript.params := by
  refine (tallies_optionalBound .colon).bind fun lower => tallies_test_bind ?_ ?_
  · refine (tallies_optionalBound .rightBracket).bind fun upper => quiet_bind fun _ => ?_
    exact tallies_pure (by simp [Subscript.params])
  · -- without a colon the first bound is the only one
    exact quiet_bind fun _ => tallies_pure (by simp [Subscript.params])

theorem tallies_moreSteps (steps : List Step) :
    (moreSteps steps).TalliesFrom 0 (total Step.params steps)
      fun found => total Step.params (found.getD steps) := by
  refine tallies_test_bind ?_ (tallies_test_bind ?_ (tallies_pure rfl))
  · refine tallies_subscript.bind fun s => tallies_pure ?_
    have hstep : (Step.subscript s).params = s.params := by simp [Step.params, Step.children]
    change _ = total Step.params (Step.subscript s :: steps)
    rw [total_cons, hstep, add_comm]
  · -- a star or a field holds nothing
    refine tallies_test_bind (tallies_pure ?_) (quiet_bind fun s => tallies_pure ?_)
    · exact (zero_add _).symm
    · exact (zero_add _).symm

/-- A value is in hand while the steps into it are read. -/
theorem tallies_indirection (arg : Node) :
    (indirection arg).TalliesFrom 0 arg.params Node.params := by
  refine (tallies_iterate tallies_moreSteps []).bind fun steps => tallies_pure ?_
  split
  case isTrue hempty =>
    rw [List.isEmpty_iff, List.reverse_eq_nil_iff] at hempty
    rw [hempty, total_nil, add_zero]
  case isFalse => simp

/-! ### Constants with a type -/

/-- The modifiers of a type are in hand; those of an interval are read only if there are
none. -/
theorem tallies_typedConstant (type : TypeName) :
    (typedConstant type).TalliesFrom 0 type.params Node.params := by
  refine tallies_kind_bind (fun m => tallies_refuse _) fun k _ => ?_
  split
  · refine tallies_skip_bind (tallies_ite (fun h => ?_) fun _ => ?_)
    · rw [Bool.and_eq_true, List.isEmpty_iff] at h
      refine tallies_intervalModifiers.bind fun ns => tallies_pure ?_
      simp [TypeName.params, h.2]
    · exact tallies_pure (by simp)
  · exact tallies_refuse _

instance (w : Keyword) : (startsTypedConstant w).Still := by
  unfold startsTypedConstant
  split <;> infer_instance

/-! ### Names -/

instance (p : Path) : (morePath p).Quiet := by
  unfold morePath
  infer_instance

theorem tallies_named (first : String) : (named first).Tallies Node.params := by
  refine quiet_bind fun p => tallies_ite (fun _ => ?_) fun _ => ?_
  · exact tallies_pure (by simp)
  · have hsteps : (indirection (Node.ofNames p.names.reverse)).Tallies Node.params := by
      have h := tallies_indirection (Node.ofNames p.names.reverse)
      rwa [Node.params_ofNames] at h
    refine tallies_kind_bind (fun m => hsteps) fun k _ => TalliesFrom.of_le ?_ (Nat.zero_le 1)
    split
    · exact (tallies_call _).bind fun c => tallies_pure (by simp)
    · exact tallies_typedConstant (TypeName.named p.names.reverse)
    · exact hsteps

/-! ### Constructs in words -/

theorem tallies_moreArms (arms : List CaseArm) :
    (moreArms arms).TalliesFrom 0 (total CaseArm.params arms)
      fun found => total CaseArm.params (found.getD arms) := by
  refine tallies_test_bind ?_ (tallies_pure rfl)
  refine tallies_expression.bind fun condition => quiet_bind fun _ => ?_
  refine tallies_expression.bind fun result => tallies_pure ?_
  simp [CaseArm.params, add_assoc, add_comm]

theorem tallies_arms : arms.Tallies (total CaseArm.params) := by
  refine (tallies_iterate tallies_moreArms []).bind fun found => ?_
  rw [← total_reverse]
  split
  · exact tallies_refuse _
  · exact tallies_pure (zero_add _)

theorem tallies_caseExpression : caseExpression.Tallies Node.params := by
  refine (tallies_optionalBound (.keyword .WHEN)).bind fun operand => ?_
  refine tallies_arms.bind fun arms => (tallies_after .ELSE tallies_expression).bind fun otherwise => ?_
  exact quiet_bind fun _ => tallies_pure (by simp)

theorem tallies_castBody : castBody.Tallies Node.params := by
  refine tallies_expression.bind fun arg => quiet_bind fun _ => ?_
  exact tallies_typeName.bind fun type => tallies_pure (by simp)

/-! ### Arrays and rows -/

theorem tallies_element : element.Tallies Node.params := by
  refine tallies_test_bind (Parser.tallies_call fun es => tallies_pure ?_) tallies_expression
  simp [Rule.params]

theorem tallies_elementList : elementList.Tallies (total Node.params) :=
  tallies_test_bind (tallies_pure rfl) (tallies_commaList tallies_element)

theorem tallies_elements : elements.Tallies (total Node.params) := by
  refine quiet_bind fun _ => tallies_elementList.bind fun es => quiet_bind fun _ => ?_
  exact tallies_pure (zero_add _)

theorem tallies_array : array.Tallies Node.params := by
  refine tallies_test_bind ?_ ?_
  · exact (tallies_parenthesized tallies_query).bind fun s => tallies_pure (by simp)
  · exact tallies_elements.bind fun es => tallies_pure (by simp)

theorem tallies_rowFields : rowFields.Tallies (total Node.params) :=
  tallies_test_bind (tallies_pure rfl) tallies_expressions

/-! ### Functions with a syntax of their own -/

theorem tallies_extractArgs : extractArgs.Tallies (total Node.params) := by
  have hfield : (kind >>= fun k => readAs (fieldOf? k) .field).Quiet :=
    quiet_readAs (fun _ => rfl) _
  have hrest (field : String) : (expectWord .FROM >>= fun _ => expression >>= fun n =>
      pure [Node.string field, n]).Tallies (total Node.params) :=
    quiet_bind fun _ => tallies_expression.bind fun n => tallies_pure (by simp)
  exact quiet_bind (p := kind >>= fun k => readAs (fieldOf? k) .field) hrest

theorem tallies_positionArgs : positionArgs.Tallies (total Node.params) := by
  refine (tallies_operand _).bind fun part => quiet_bind fun _ => ?_
  exact (tallies_operand _).bind fun whole => tallies_pure (by simp [add_comm])

/-- A start that is not written holds nothing. -/
theorem tallies_substringArgs : substringArgs.Tallies (total Node.params) := by
  refine tallies_expression.bind fun whole => tallies_test_bind ?_ (tallies_test_bind ?_ ?_)
  · -- `FROM` and perhaps `FOR`
    refine tallies_expression.bind fun start => ?_
    exact (tallies_after .FOR tallies_expression).bind fun count => tallies_pure (by simp [add_assoc])
  · -- `FOR` and perhaps `FROM`, in whose place the first character stands
    refine tallies_expression.bind fun count => ?_
    refine (tallies_after .FROM tallies_expression).bind fun start => tallies_pure ?_
    cases start with
    | none => simp
    | some start => simp [add_assoc, add_comm]
  · simpa using tallies_itemsAfter .comma tallies_expression [whole]

instance : trimFunction.Quiet := by
  unfold trimFunction
  infer_instance

theorem tallies_trimArgs : trimArgs.Tallies (total Node.params) := by
  refine tallies_test_bind tallies_expressions ?_
  refine tallies_expression.bind fun first => tallies_test_bind ?_ ?_
  · exact tallies_expressions.bind fun items => tallies_pure (by simp [add_comm])
  · simpa using tallies_itemsAfter .comma tallies_expression [first]

theorem tallies_specialBody : ∀ f, (specialBody f).Tallies Node.params
  | .coalesce | .greatest | .least => tallies_expressions.bind fun ns => tallies_pure (by simp)
  | .nullif => by
    refine tallies_expression.bind fun left => quiet_bind fun _ => ?_
    exact tallies_expression.bind fun right => tallies_pure (by simp)
  | .extract => tallies_extractArgs.bind fun ns => tallies_pure (by simp)
  | .position => tallies_positionArgs.bind fun ns => tallies_pure (by simp)
  | .substring => tallies_substringArgs.bind fun ns => tallies_pure (by simp)
  | .trim => quiet_bind fun _ => tallies_trimArgs.bind fun ns => tallies_pure (by simp)

theorem tallies_specialCall (f : SpecialFunction) : (specialCall f).Tallies Node.params :=
  tallies_parenthesized (tallies_specialBody f)

theorem tallies_valueFunction (f : ValueFunction) : (valueFunction f).Tallies Node.params := by
  have hplain : (pure (Node.valueFunction f none) : Parser Node).Tallies Node.params :=
    tallies_pure (by simp)
  refine tallies_ite (fun _ => tallies_test_bind ?_ hplain) fun _ => hplain
  exact quiet_bind fun n => tallies_pure (by simp)

/-! ### Operands -/

theorem tallies_namedByWord (w : Keyword) (beforeParen : Bool) :
    (namedByWord w beforeParen).TalliesFrom 1 0 Node.params :=
  tallies_ite (fun _ => tallies_skip_bind (tallies_named _)) fun _ => tallies_refuse _

theorem tallies_operandOfWord (w : Keyword) (beforeParen : Bool) :
    (operandOfWord w beforeParen).TalliesFrom 1 0 Node.params := by
  unfold operandOfWord
  split
  case h_8 =>
    -- `ROW`, which is a name unless a parenthesis follows
    refine tallies_ite (fun _ => ?_) fun _ => tallies_namedByWord _ _
    refine tallies_skip_bind ((tallies_parenthesized tallies_rowFields).trans fun ns => ?_)
    simpa using tallies_indirection (Node.row ns true)
  case h_9 =>
    -- the words for functions, and all others
    split
    · exact tallies_skip_bind (tallies_specialCall _)
    · exact tallies_namedByWord _ _
  all_goals apply tallies_skip_bind
  · exact tallies_pure (by simp)
  · exact tallies_pure (by simp)
  · exact tallies_pure (by simp)
  · exact tallies_caseExpression
  · exact tallies_parenthesized tallies_castBody
  · exact (tallies_parenthesized tallies_query).bind fun s => tallies_pure (by simp)
  · exact tallies_array.trans tallies_indirection

theorem tallies_startingWith (w : Keyword) : (startingWith w).TalliesFrom 1 0 Node.params := by
  unfold startingWith
  split
  · exact tallies_skip_bind (tallies_valueFunction _)
  · refine tallies_still_bind fun found => tallies_ite (fun _ => ?_) fun _ => ?_
    · exact (tallies_plainType.trans tallies_typedConstant).of_le (Nat.zero_le 1)
    · exact tallies_still_bind fun beforeParen => tallies_operandOfWord w beforeParen

/-- A parameter that stands as an operand comes into hand where it is read. -/
theorem tallies_primary : primary.Tallies Node.params := by
  have hconst (c : Literal) : (skip >>= fun _ => pure (Node.const c)).TalliesFrom 1 0 Node.params :=
    tallies_skip_bind (tallies_pure (by simp))
  have henclosed : (enclosedContent >>= fun e => indirection e.operand).Tallies Node.params := by
    refine tallies_enclosedContent.trans fun e => ?_
    simpa using tallies_indirection e.operand
  intro v hv
  refine tracks_kind_bind ?_
  by_cases hk : v.kind.params = 0
  · -- any other token may be passed over
    have hknows : v.Knows 1 := ⟨Nat.le_succ 1, fun _ => hk, fun h => by omega⟩
    split
    · exact hconst _ v hknows
    · next hparam _ => exact absurd (hparam ▸ hk) (Multiset.singleton_ne_zero _)
    · exact henclosed v hv
    · exact tallies_skip_bind (tallies_named _) v hknows
    · exact tallies_startingWith _ v hknows
    · exact tallies_refuse _ v hv
  · obtain ⟨m, hm⟩ := TokenKind.eq_param_of_params hk
    rw [hm]
    exact tracks_skip_bind hm (by simpa using tallies_indirection (Node.param m))

end Grammar
end SqlSyntax
