import SqlSyntax.Proofs.Grammar.PlainOperand

/-!
# Expressions that are read

An operator joins expressions that are plain if they are simple to one more.  Chains of
`AND` and `OR` grow at the end, a minus sign may change a number, and parentheses leave
what they hold as it is.

## Main results

* `operation_plain` — the operators behind an operand.
* `expressionAbove_plain` — **expressions that are read.**
* `enclosed_plain` — what parentheses hold.
-/

namespace SqlSyntax
namespace Grammar

open SqlSyntax.Parser

variable {q : Prop} {arg left : Node}

/-! ### Tests and predicates -/

theorem test_plain (harg : arg.PlainIf q) : (test arg).Yields (plainly q) (Node.PlainIf q) := by
  unfold test
  refine yields_bind_any fun negated => yields_bind_any fun k => ?_
  split
  · exact yields_bind_any fun _ => yields_pure (Node.plainIf_nullTest negated harg)
  · unfold distinction
    refine yields_bind_any fun _ => yields_bind_any fun _ => ?_
    exact (operand_plain _).bind fun right hright =>
      yields_pure (Node.plainIf_distinct negated harg hright)
  · split
    · exact yields_bind_any fun _ => yields_pure (Node.plainIf_truthTest _ negated harg)
    · exact yields_unexpected _
  · exact yields_unexpected _

theorem between_plain (negated : Bool) (harg : arg.PlainIf q) :
    (between negated arg).Yields (plainly q) (Node.PlainIf q) := by
  unfold between
  refine yields_bind_any fun anyOrder => ?_
  refine (operand_plain _).bind fun low hlow => yields_bind_any fun _ => ?_
  exact (operand_plain _).bind fun high hhigh =>
    yields_pure (Node.plainIf_rangeTest negated anyOrder harg hlow hhigh)

/-- A subquery is not simple, and neither is its negation. -/
theorem inBody_plain (negated : Bool) (harg : arg.PlainIf q) :
    (inBody negated arg).Yields (plainly q) (Node.PlainIf q) := by
  unfold inBody
  refine yields_bind_any fun k => yields_ite (fun _ => ?_) fun _ => ?_
  · refine yields_bind_any fun s => yields_pure ?_
    cases negated with
    | true => exact Node.plainIf_negation (Node.plainIf_subquery _)
    | false => exact Node.plainIf_subquery _
  · exact expressions_plain.bind fun ns hns =>
      yields_pure (Node.plainIf_inList negated harg hns.1 hns.2)

theorem patternMatch_plain {m : PatternMatch} (hm : m = .like ∨ m = .ilike ∨ m = .similar)
    (negated : Bool) (harg : arg.PlainIf q) :
    (patternMatch m negated arg).Yields (plainly q) (Node.PlainIf q) := by
  unfold patternMatch
  refine (operand_plain _).bind fun pattern hpattern => ?_
  refine (yields_after .ESCAPE (operand_plain _)).bind fun escape hescape => ?_
  exact yields_pure (Node.plainIf_matched hm negated harg hpattern hescape)

theorem predicate_plain (negated : Bool) (harg : arg.PlainIf q) (p : Predicate) :
    (predicate negated arg p).Yields (plainly q) (Node.PlainIf q) := by
  cases p with
  | between => exact between_plain negated harg
  | inList => exact yields_parenthesized (inBody_plain negated harg)
  | like => exact patternMatch_plain (.inl rfl) negated harg
  | ilike => exact patternMatch_plain (.inr (.inl rfl)) negated harg
  | similar =>
    exact yields_bind_any fun _ => patternMatch_plain (.inr (.inr rfl)) negated harg

/-! ### Operators -/

theorem quantifiedBody_plain {op : String} (hop : IsOperator op) (all : Bool)
    (hleft : left.PlainIf q) :
    (quantifiedBody op all left).Yields (plainly q) (Node.PlainIf q) := by
  unfold quantifiedBody
  refine yields_bind_any fun k => yields_ite (fun _ => ?_) fun _ => ?_
  · exact yields_bind_any fun s => yields_pure (Node.plainIf_subquery _)
  · refine expression_plain.bind fun right hright => yields_pure ?_
    cases all with
    | true => exact Node.plainIf_operation (.inr (.inr rfl)) hop hleft hright
    | false => exact Node.plainIf_operation (.inr (.inl rfl)) hop hleft hright

theorem binaryOperation_plain {op : String} (hop : IsOperator op) (level : Level)
    (hleft : left.PlainIf q) :
    (binaryOperation op level left).Yields (plainly q) (Node.PlainIf q) := by
  have hbinary : (do return Node.binary op left (← operand level) : Parser Node).Yields
      (plainly q) (Node.PlainIf q) :=
    (operand_plain level).bind fun right hright =>
      yields_pure (Node.plainIf_operation (.inl rfl) hop hleft hright)
  unfold binaryOperation
  refine yields_bind_any fun k => ?_
  split
  · refine yields_bind_any fun parens => yields_ite (fun _ => ?_) fun _ => hbinary
    exact yields_bind_any fun _ => yields_parenthesized (quantifiedBody_plain hop _ hleft)
  · exact hbinary

theorem negatedPredicate_plain (harg : arg.PlainIf q) :
    (negatedPredicate arg).Yields (plainly q) (Node.PlainIf q) := by
  unfold negatedPredicate
  refine yields_bind_any fun k => ?_
  split
  · exact yields_bind_any fun _ => predicate_plain true harg _
  · exact yields_misplaced

theorem timeZone_plain (level : Level) (hleft : left.PlainIf q) :
    (operation (.keyword .AT) level left).Yields (plainly q) (Node.PlainIf q) := by
  refine yields_bind_any fun _ => yields_bind_any fun _ => ?_
  exact (operand_plain level).bind fun zone hzone =>
    yields_pure (Node.plainIf_timeZone hzone hleft)

/-- The operators behind an operand, by the tokens that are operators there. -/
theorem operation_plain {k : TokenKind} {level : Level} (hk : k.IsRead)
    (hlevel : Level.ofInfix? k = some level) (hleft : left.PlainIf q) :
    (operation k level left).Yields (plainly q) (Node.PlainIf q) := by
  have hoperator {op : String} (hop : IsOperator op) :=
    binaryOperation_plain hop level hleft
  unfold Level.ofInfix? at hlevel
  split at hlevel
  · exact (operand_plain level).bind fun right hright =>
      yields_pure (Node.plainIf_joined (by decide) hleft hright)
  · exact (operand_plain level).bind fun right hright =>
      yields_pure (Node.plainIf_joined (by decide) hleft hright)
  · exact test_plain hleft
  · exact yields_pure (Node.plainIf_nullTest false hleft)
  · exact yields_pure (Node.plainIf_nullTest true hleft)
  -- the six comparisons
  iterate 6
    · exact hoperator ⟨by decide, by decide, by decide⟩
  · exact predicate_plain false hleft .between
  · exact predicate_plain false hleft .inList
  · exact predicate_plain false hleft .like
  · exact predicate_plain false hleft .ilike
  · exact predicate_plain false hleft .similar
  · exact negatedPredicate_plain hleft
  · exact hoperator hk.1
  -- the operators of arithmetic
  iterate 6
    · exact hoperator ⟨by decide, by decide, by decide⟩
  · exact timeZone_plain level hleft
  · exact dottedName_plain.bind fun names hnames =>
      yields_pure (Node.plainIf_collate hleft hnames.1 fun s hs => (hnames.2 s hs).1)
  · exact typeName_plain.bind fun type htype => yields_pure (Node.plainIf_cast hleft htype)
  · cases hlevel

theorem operations_plain (above : Level) (hleft : left.PlainIf q) :
    (operations above left).Yields (plainly q) (Node.PlainIf q) := by
  refine yields_iterate hleft fun n hn => ?_
  unfold moreOperations
  refine yields_kind_bind fun k hk => ?_
  split
  · exact yields_pure forall_mem_none
  · next level hlevel =>
    refine yields_ite (fun _ => yields_pure forall_mem_none) fun _ => ?_
    refine yields_bind_any fun found => yields_ite (fun _ => ?_) fun _ => yields_pure forall_mem_none
    refine yields_bind_any fun _ => (operation_plain hk.1 hlevel hn).bind fun n' hn' => ?_
    exact yields_pure (forall_mem_some hn')

/-- An operator in front of an operand binds as the level of its token says. -/
theorem signed_plain {k : TokenKind} {level : Level} (hk : k.IsRead)
    (hlevel : Level.ofSign? k = some level) (harg : arg.PlainIf q) : (signed k arg).PlainIf q := by
  unfold Level.ofSign? at hlevel
  split at hlevel
  · exact Node.plainIf_negation harg
  · exact Node.plainIf_negate harg
  · exact Node.plainIf_prefixed ⟨by decide, by decide, by decide⟩ (by decide) harg
      fun heq => absurd heq (by decide)
  · next op =>
    obtain ⟨hop, hkind⟩ := hk
    -- the signs have tokens of their own
    have hsign : op ≠ "-" ∧ op ≠ "+" := by
      constructor <;>
        · rintro rfl
          cases hkind
    show (Node.prefixed op arg).PlainIf q
    refine Node.plainIf_prefixed hop ?_ harg fun heq => absurd heq hsign.1
    rw [hkind, Level.ofPrefix, Level.isSignOperator, beq_false_of_ne hsign.1,
      beq_false_of_ne hsign.2]
    rfl
  · cases hlevel

theorem leftOperand_plain : leftOperand.Yields (plainly q) (Node.PlainIf q) := by
  unfold leftOperand
  refine yields_kind_bind fun k hk => ?_
  split
  · exact primary_plain
  · next level hlevel =>
    refine yields_bind_any fun _ => (operand_plain _).bind fun arg harg => ?_
    exact yields_pure (signed_plain hk.1 hlevel harg)

/-- Expressions that are read. -/
theorem expressionAbove_plain (above : Level) :
    (expressionAbove above).Yields (plainly q) (Node.PlainIf q) := by
  unfold expressionAbove
  exact leftOperand_plain.bind fun left hleft => operations_plain above hleft

/-! ### Parentheses -/

/-- Several items in parentheses are a row; there are at least two of them. -/
theorem enclosedItems_plain {first : Node} (hfirst : first.PlainIf q) :
    (enclosedItems first).Yields (plainly q) fun e => e.operand.PlainIf q := by
  unfold enclosedItems
  refine (yields_itemsAfter .comma expression_plain (List.cons_ne_nil first [])
    (List.forall_mem_singleton.mpr hfirst)).bind fun fields hfields => ?_
  refine yields_bind_any fun _ => ?_
  split
  · exact yields_pure (hfields.2 _ List.mem_cons_self)
  · next hmany =>
    exact yields_pure (Node.plainIf_row hfields.2 fun _ => two_le_length hfields.1 hmany)

theorem enclosedRest_plain {first : Node} (hfirst : first.PlainIf q) :
    (enclosedRest first).Yields (plainly q) fun e => e.operand.PlainIf q := by
  unfold enclosedRest
  refine (indirection_plain hfirst).bind fun n hn => ?_
  exact (operations_plain 0 hn).bind fun n hn => enclosedItems_plain hn

/-- A query in parentheses is a subquery, which is not simple. -/
theorem plainIf_operand_query (s : Select) : (Enclosed.query s).operand.PlainIf q :=
  Node.plainIf_subquery _

/-- What parentheses hold. -/
theorem enclosed_plain : enclosed.Yields (plainly q) fun e => e.operand.PlainIf q := by
  have hquery (s : Select) : (do expect .rightParen; return Enclosed.query s : Parser _).Yields
      (plainly q) fun e => e.operand.PlainIf q :=
    yields_bind_any fun _ => yields_pure (plainIf_operand_query s)
  have hafter (e : Enclosed) (he : e.operand.PlainIf q) :
      (afterEnclosed e).Yields (plainly q) fun e => e.operand.PlainIf q := by
    cases e with
    | item n => exact enclosedRest_plain he
    | query s =>
      refine yields_bind_any fun k => yields_ite (fun _ => ?_) fun _ => ?_
      · exact yields_bind_any fun s => hquery s
      · refine yields_ite (fun _ => ?_) fun _ => enclosedRest_plain he
        exact yields_bind_any fun _ => yields_pure (plainIf_operand_query s)
  unfold enclosed
  refine yields_bind_any fun _ => yields_bind_any fun k => yields_ite (fun _ => ?_) fun _ => ?_
  · exact yields_bind_any fun s => hquery s
  · refine yields_ite (fun _ => enclosedContent_plain.bind hafter) fun _ => ?_
    exact expression_plain.bind fun n hn => enclosedItems_plain hn

end Grammar
end SqlSyntax
