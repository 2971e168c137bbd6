import SqlSyntax.Proofs.Grammar.TallyOperand

/-!
# Expressions keep the account

An operator holds the parameters of its operands, in whatever order they stand in the tree.
The left operand is in hand while what is behind it is read.

## Main results

* `tallies_predicate` — ranges, lists and patterns.
* `tallies_operation` — an operator behind an operand.
* `tallies_expressionAbove` — **expressions hold the parameters that they are read from.**
-/

namespace SqlSyntax

/-- The parameters of a value do not change with its sign. -/
@[simp] theorem Node.params_negate (arg : Node) : arg.negate.params = arg.params := by
  unfold negate
  split
  · -- a number stays a number
    split
    · split <;> simp
    · simp
    · simp
  · simp

namespace Grammar

open SqlSyntax.Parser

theorem params_signed (k : TokenKind) (arg : Node) : (signed k arg).params = arg.params := by
  unfold signed
  split <;> simp

theorem params_rangeTest (negated symmetric : Bool) (arg low high : Node) :
    (rangeTest negated symmetric arg low high).params = arg.params + low.params + high.params := by
  cases negated <;> cases symmetric <;> simp [rangeTest, add_assoc]

theorem params_pattern (m : PatternMatch) (pattern : Node) (escape : Option Node) :
    (m.pattern pattern escape).params = pattern.params + total Node.params escape.toList := by
  cases escape with
  | some e => simp [PatternMatch.pattern, Call.system, Call.params]
  | none =>
    simp only [PatternMatch.pattern]
    split <;> simp [Call.system, Call.params]

/-! ### Tests behind `IS` -/

theorem tallies_distinction (negated : Bool) (arg : Node) :
    (distinction negated arg).TalliesFrom 0 arg.params Node.params :=
  quiet_bind fun _ => (tallies_operand _).bind fun right => tallies_pure (by simp)

theorem tallies_test (arg : Node) : (test arg).TalliesFrom 0 arg.params Node.params := by
  refine quiet_bind fun negated => tallies_kind_bind (fun m => tallies_refuse _) fun k _ => ?_
  split
  · -- `NULL`
    exact tallies_skip_bind (tallies_pure (by simp))
  · -- `DISTINCT FROM`
    exact tallies_skip_bind (tallies_distinction negated arg)
  · split
    · exact tallies_skip_bind (tallies_pure (by simp))
    · exact tallies_refuse _
  · exact tallies_refuse _

/-! ### Predicates in words -/

instance : symmetric.Quiet := by
  unfold symmetric
  infer_instance

theorem tallies_between (negated : Bool) (arg : Node) :
    (between negated arg).TalliesFrom 0 arg.params Node.params := by
  refine quiet_bind fun anyOrder => (tallies_operand _).bind fun low => quiet_bind fun _ => ?_
  exact (tallies_operand _).bind fun high => tallies_pure (params_rangeTest _ _ _ _ _).symm

theorem tallies_inBody (negated : Bool) (arg : Node) :
    (inBody negated arg).TalliesFrom 0 arg.params Node.params := by
  refine tallies_still_bind fun k => tallies_ite (fun _ => ?_) fun _ => ?_
  · refine tallies_query.bind fun s => tallies_pure ?_
    cases negated <;> simp
  · exact tallies_expressions.bind fun items => tallies_pure (by simp)

theorem tallies_patternMatch (m : PatternMatch) (negated : Bool) (arg : Node) :
    (patternMatch m negated arg).TalliesFrom 0 arg.params Node.params := by
  refine (tallies_operand _).bind fun pattern => ?_
  refine (tallies_after .ESCAPE (tallies_operand _)).bind fun escape => tallies_pure ?_
  simp [params_pattern, add_assoc]

theorem tallies_predicate (negated : Bool) (arg : Node) :
    ∀ p, (predicate negated arg p).TalliesFrom 0 arg.params Node.params
  | .between => tallies_between negated arg
  | .inList => tallies_parenthesized (tallies_inBody negated arg)
  | .like | .ilike => tallies_patternMatch _ negated arg
  | .similar => quiet_bind fun _ => tallies_patternMatch _ negated arg

theorem tallies_negatedPredicate (arg : Node) :
    (negatedPredicate arg).TalliesFrom 0 arg.params Node.params := by
  refine tallies_kind_bind (fun m => tallies_refuse _) fun k _ => ?_
  split
  · exact tallies_skip_bind (tallies_predicate true arg _)
  · exact tallies_refuse _

/-! ### Operators -/

theorem tallies_quantifiedBody (op : String) (all : Bool) (left : Node) :
    (quantifiedBody op all left).TalliesFrom 0 left.params Node.params := by
  refine tallies_still_bind fun k => tallies_ite (fun _ => ?_) fun _ => ?_
  · exact tallies_query.bind fun s => tallies_pure (by simp)
  · exact tallies_expression.bind fun right => tallies_pure (by simp)

theorem tallies_binaryOperation (op : String) (level : Level) (left : Node) :
    (binaryOperation op level left).TalliesFrom 0 left.params Node.params := by
  have hplain : (operand level >>= fun right => pure (Node.binary op left right)).TalliesFrom 0
      left.params Node.params :=
    (tallies_operand level).bind fun right => tallies_pure (by simp)
  refine tallies_kind_bind (fun m => hplain) fun k _ => ?_
  split
  · -- `ANY`, `SOME` or `ALL`
    refine tallies_isBefore_bind .leftParen ?_ (hplain.of_le (Nat.zero_le 1))
    refine tallies_skip_bind (TalliesFrom.of_le ?_ (Nat.zero_le 1))
    exact tallies_parenthesized (tallies_quantifiedBody _ _ left)
  · exact hplain.of_le (Nat.zero_le 1)

theorem tallies_operation (k : TokenKind) (level : Level) (left : Node) :
    (operation k level left).TalliesFrom 0 left.params Node.params := by
  unfold operation
  split
  · exact (tallies_operand _).bind fun right => tallies_pure (by simp)
  · exact (tallies_operand _).bind fun right => tallies_pure (by simp)
  · exact tallies_test left
  · exact tallies_pure (by simp)
  · exact tallies_pure (by simp)
  · -- `AT TIME ZONE` gives the zone to a function as its first argument
    refine quiet_bind fun _ => quiet_bind fun _ => ?_
    exact (tallies_operand _).bind fun zone => tallies_pure (by simp [add_comm])
  · exact quiet_bind fun collation => tallies_pure (by simp)
  · exact tallies_typeName.bind fun type => tallies_pure (by simp)
  · exact tallies_negatedPredicate left
  · split
    · exact tallies_predicate false left _
    · exact tallies_binaryOperation _ level left

instance (k : TokenKind) : (isOperator k).Still := by
  unfold isOperator
  split <;> infer_instance

theorem tallies_moreOperations (above : Level) (left : Node) :
    (moreOperations above left).TalliesFrom 0 left.params fun found => (found.getD left).params := by
  refine tallies_kind_bind (fun m => tallies_pure rfl) fun k _ => ?_
  split
  · exact tallies_pure rfl
  · refine tallies_ite (fun _ => tallies_pure rfl) fun _ => tallies_still_bind fun found => ?_
    refine tallies_ite (fun _ => ?_) fun _ => tallies_pure rfl
    exact tallies_skip_bind ((tallies_operation k _ left).trans fun n => tallies_pure rfl)

theorem tallies_operations (above : Level) (left : Node) :
    (operations above left).TalliesFrom 0 left.params Node.params :=
  tallies_iterate (tallies_moreOperations above) left

theorem tallies_leftOperand : leftOperand.Tallies Node.params := by
  refine tallies_kind_bind (fun m => tallies_primary) fun k _ => ?_
  split
  · exact tallies_primary.of_le (Nat.zero_le 1)
  · refine tallies_skip_bind ((tallies_operand _).bind fun arg => tallies_pure ?_)
    rw [zero_add, params_signed]

theorem tallies_expressionAbove (above : Level) : (expressionAbove above).Tallies Node.params :=
  tallies_leftOperand.trans (tallies_operations above)

end Grammar
end SqlSyntax
