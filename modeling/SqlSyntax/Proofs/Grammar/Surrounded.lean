import SqlSyntax.Proofs.Grammar.Parenthesized

/-!
# Queries in small statements

What the productions find around a query in parentheses: an operand, a predicate, an item of
`FROM` or a common table expression, in a statement that selects one expression.

## Main definitions

* `StartsColumn` — tokens that start an output column that is an expression.

## Main results

* `finds_primary_enclosed`, `finds_primary_exists`, `finds_primary_array` — operands.
* `finds_operation_in`, `finds_operation_quantified` — predicates.
* `finds_source_derived` — an item of `FROM`.
* `finds_ctes_one` — a common table expression.
* `finds_statement_select`, `finds_statement_with` — the statements around them.
-/

namespace SqlSyntax

namespace Grammar

open SqlSyntax.Parser

variable {ts ts₁ : List TokenKind} {k : TokenKind} {n : Node} {s : Select} {v : String}

/-! ### Expressions -/

theorem ofInfix?_of_endsOutput (h : endsOutput k = true) : Level.ofInfix? k = none := by
  cases k with
  | keyword w => cases w <;> first | rfl | cases h
  | _ => first | rfl | cases h

theorem isBareLabel_of_endsOutput (h : endsOutput k = true) : isBareLabel k = false := by
  cases k with
  | keyword w => cases w <;> first | rfl | cases h
  | _ => first | rfl | cases h

theorem ne_of_endsOutput {j : TokenKind} (h : endsOutput k = true) (hj : endsOutput j = false) :
    k ≠ j := by
  rintro rfl
  rw [h] at hj
  cases hj

/-- No step into a value follows. -/
theorem finds_indirection_same (hbracket : firstOf ts ≠ .leftBracket) (hdot : firstOf ts ≠ .dot) :
    (indirection n).Finds ts n ts := by
  refine Finds.bind (finds_iterate ?_) (finds_pure n ts)
  exact (finds_accept_other hbracket).bind ((finds_accept_other hdot).bind (finds_pure none ts))

theorem finds_leftOperand (h : primary.Finds (k :: ts) n ts₁) (hsign : Level.ofSign? k = none) :
    leftOperand.Finds (k :: ts) n ts₁ := by
  refine finds_kind_bind ?_
  rw [firstOf_cons, hsign]
  exact h

theorem finds_moreOperations_none (h : endsOutput (firstOf ts) = true) :
    (moreOperations 0 n).Finds ts none ts := by
  refine finds_kind_bind ?_
  rw [ofInfix?_of_endsOutput h]
  exact finds_pure none ts

/-- An operand between no operators. -/
theorem finds_expression (h : primary.Finds (k :: ts) n ts₁) (hsign : Level.ofSign? k = none)
    (hend : endsOutput (firstOf ts₁) = true) : expression.Finds (k :: ts) n ts₁ :=
  finds_operand ((finds_leftOperand h hsign).bind (finds_iterate (finds_moreOperations_none hend)))

/-- An operand with one operation behind it. -/
theorem finds_expression_operation {j : TokenKind} {level : Level} {m : Node} {ts₂ : List TokenKind}
    (h : primary.Finds (k :: ts) n (j :: ts₁)) (hsign : Level.ofSign? k = none)
    (hlevel : Level.ofInfix? j = some level) (hpos : ¬ level ≤ 0) (hat : j ≠ .keyword .AT)
    (hoperation : (operation j level n).Finds ts₁ m ts₂) (hend : endsOutput (firstOf ts₂) = true) :
    expression.Finds (k :: ts) m ts₂ := by
  have hmore : (moreOperations 0 n).Finds (j :: ts₁) (some m) ts₂ := by
    refine finds_kind_bind ?_
    rw [firstOf_cons, hlevel]
    dsimp only
    rw [if_neg hpos, isOperator, if_neg hat]
    exact (finds_pure true _).bind (finds_skip_bind (hoperation.bind (finds_pure _ ts₂)))
  exact finds_operand ((finds_leftOperand h hsign).bind
    (finds_iterate_once (List.cons_ne_nil _ _) hmore (finds_moreOperations_none hend)))

/-! ### Operands -/

theorem finds_primary_integer (i : Int) (ts : List TokenKind) :
    primary.Finds (.integer i :: ts) (.integer i) ts :=
  finds_kind_bind (finds_skip_bind (finds_pure (Node.integer i) ts))

/-- A query in parentheses stands for its only value. -/
theorem finds_primary_enclosed (h : enclosed.Finds (.leftParen :: ts) (.query s) ts₁)
    (hend : endsOutput (firstOf ts₁) = true) :
    primary.Finds (.leftParen :: ts) (.subquery { use := .scalar, query := s }) ts₁ :=
  finds_kind_bind ((finds_enclosedContent h).bind
    (finds_indirection_same (ne_of_endsOutput hend rfl) (ne_of_endsOutput hend rfl)))

theorem finds_primary_exists (h : query.Finds ts s (.rightParen :: ts₁)) :
    primary.Finds (.keyword .EXISTS :: .leftParen :: ts)
      (.subquery { use := .existence, query := s }) ts₁ := by
  refine finds_kind_bind ((finds_pure false _).bind (finds_nextKind_bind (finds_skip_bind ?_)))
  exact (finds_parenthesized h).bind (finds_pure _ ts₁)

theorem finds_primary_array (h : query.Finds ts s (.rightParen :: ts₁))
    (hend : endsOutput (firstOf ts₁) = true) :
    primary.Finds (.keyword .ARRAY :: .leftParen :: ts)
      (.subquery { use := .array, query := s }) ts₁ := by
  refine finds_kind_bind ((finds_pure false _).bind (finds_nextKind_bind (finds_skip_bind ?_)))
  have harray : array.Finds (.leftParen :: ts) (.subquery { use := .array, query := s }) ts₁ :=
    finds_isAt_bind ((finds_parenthesized h).bind (finds_pure _ ts₁))
  exact harray.bind
    (finds_indirection_same (ne_of_endsOutput hend rfl) (ne_of_endsOutput hend rfl))

/-- A name in front of an operator is a column. -/
theorem finds_primary_name (v : String) (hk : (Level.ofInfix? k).isSome = true) :
    primary.Finds (.name v :: k :: ts) (Node.ofNames [v]) (k :: ts) := by
  have hpath : (iterate morePath { names := [v] }).Finds (k :: ts) { names := [v] } (k :: ts) := by
    refine finds_iterate ((finds_accept_other ?_).bind (finds_pure none _))
    rintro rfl
    cases hk
  refine finds_kind_bind (finds_skip_bind (hpath.bind (finds_kind_bind ?_)))
  rw [firstOf_cons]
  have hcolumn : (indirection (Node.ofNames [v])).Finds (k :: ts) (Node.ofNames [v]) (k :: ts) := by
    refine finds_indirection_same ?_ ?_ <;> rintro rfl <;> cases hk
  cases k <;> first | exact hcolumn | cases hk

/-! ### Predicates with a query -/

/-- In the parentheses behind `IN`, the first word tells a query. -/
theorem finds_operation_in (hstart : startsQuery (firstOf ts) = true)
    (h : query.Finds ts s (.rightParen :: ts₁)) :
    (operation (.keyword .IN) Level.predicate n).Finds (.leftParen :: ts)
      (.subquery { use := .forAny, test := some n, query := s }) ts₁ := by
  have hbody : (inBody false n).Finds ts (.subquery { use := .forAny, test := some n, query := s })
      (.rightParen :: ts₁) := by
    refine finds_kind_bind ?_
    rw [if_pos hstart]
    exact h.bind (finds_pure _ _)
  exact finds_parenthesized hbody

/-- The same behind `ANY`, `SOME` and `ALL`. -/
theorem finds_operation_quantified {w : Keyword} {all : Bool} (hw : withAll? (.keyword w) = some all)
    (hstart : startsQuery (firstOf ts) = true) (h : query.Finds ts s (.rightParen :: ts₁)) :
    (operation .eq Level.comparison n).Finds (.keyword w :: .leftParen :: ts)
      (.subquery { use := if all then .forAll else .forAny, test := some n, op := some "=", query := s })
      ts₁ := by
  have hbody : (quantifiedBody "=" all n).Finds ts (.subquery
      { use := if all then .forAll else .forAny, test := some n, op := some "=", query := s })
      (.rightParen :: ts₁) := by
    refine finds_kind_bind ?_
    rw [if_pos hstart]
    exact h.bind (finds_pure _ _)
  refine finds_kind_bind ?_
  rw [firstOf_cons, hw]
  exact finds_nextKind_bind (finds_skip_bind (finds_parenthesized hbody))

/-! ### Items of `FROM` -/

/-- A subquery with a name behind it, which ends the text. -/
theorem finds_source_derived
    (h : enclosedSource.Finds (.leftParen :: ts) (.query s) [.keyword .AS, .name v]) :
    source.Finds (.leftParen :: ts) (.derivedTable ⟨false, s, some ⟨v, []⟩⟩) [] := by
  have halias : optionalAlias.Finds [.keyword .AS, .name v] (some ⟨v, []⟩) [] := by
    refine (finds_accept _ _).bind (finds_kind_bind ?_)
    have hname : name.Finds [.name v] v [] := finds_kind_bind (finds_skip_bind (finds_pure v []))
    refine hname.bind (Finds.bind (a := []) ?_ (finds_pure _ []))
    exact finds_isAt_bind (finds_pure [] [])
  have hitem : (enclosedItem false).Finds (.leftParen :: ts) (.derivedTable ⟨false, s, some ⟨v, []⟩⟩) [] :=
    (finds_enclosedSourceContent h).bind (halias.bind (finds_pure _ []))
  have hmore (item : Node) : (moreJoins item).Finds [] none [] := by
    refine (finds_accept_other TokenKind.noConfusion).bind
      ((finds_accept_other TokenKind.noConfusion).bind (Finds.bind (a := none) ?_ (finds_pure none [])))
    exact finds_kind_bind (finds_pure none [])
  refine Finds.bind ?_ (finds_iterate (hmore _))
  exact (finds_accept_other TokenKind.noConfusion).bind (finds_isAt_bind hitem)

/-! ### Common table expressions -/

/-- A query with a name in front of it. -/
theorem finds_ctes_one (h : query.Finds ts s (.rightParen :: ts₁))
    (hstart : startsQuery (firstOf ts) = true ∨ firstOf ts = .leftParen)
    (hcomma : firstOf ts₁ ≠ .comma) :
    ctes.Finds (.name v :: .keyword .AS :: .leftParen :: ts)
      ⟨[⟨v, [], .unspecified, .select s⟩], false⟩ ts₁ := by
  -- no change starts like a query, so that the body is tried as one
  have hchange : change?.Finds ts none ts := by
    refine finds_kind_bind ?_
    revert hstart
    generalize firstOf ts = k
    intro hstart
    rcases hstart with hstart | rfl
    · cases k with
      | keyword w => cases w <;> first | exact finds_pure none ts | cases hstart
      | _ => cases hstart
    · exact finds_pure none ts
  have hbody : cteBody.Finds ts (.select s) (.rightParen :: ts₁) :=
    hchange.bind (h.bind (finds_pure _ _))
  have hname (ts : List TokenKind) : name.Finds (.name v :: ts) v ts :=
    finds_kind_bind (finds_skip_bind (finds_pure v ts))
  have hmaterialization (ts : List TokenKind) :
      materialization.Finds (.leftParen :: ts) .unspecified (.leftParen :: ts) :=
    (finds_accept_other TokenKind.noConfusion).bind
      ((finds_accept_other TokenKind.noConfusion).bind (finds_pure _ _))
  have hcte : cte.Finds (.name v :: .keyword .AS :: .leftParen :: ts) ⟨v, [], .unspecified, .select s⟩ ts₁ := by
    refine (hname _).bind (Finds.bind (a := []) (finds_isAt_bind (finds_pure [] _)) ?_)
    refine (finds_expect _ _).bind ((hmaterialization _).bind ?_)
    exact (finds_parenthesized hbody).bind (finds_pure _ _)
  exact (finds_accept_other TokenKind.noConfusion).bind
    ((finds_commaList_one hcte hcomma).bind (finds_pure _ _))

/-! ### Statements -/

/-- The token starts an output column that is an expression. -/
structure StartsColumn (k : TokenKind) : Prop where
  output : endsOutput k = false
  words : k ∉ [.star, .keyword .DISTINCT, .keyword .ALL]

/-- An output column without a label. -/
theorem finds_outputColumn (h : expression.Finds ts n ts₁) (hstar : firstOf ts ≠ .star)
    (hend : endsOutput (firstOf ts₁) = true) : outputColumn.Finds ts ⟨none, some n⟩ ts₁ := by
  refine (finds_accept_other hstar).bind (h.bind (Finds.bind (a := none) ?_ (finds_pure _ ts₁)))
  refine (finds_accept_other (ne_of_endsOutput hend rfl)).bind (finds_kind_bind ?_)
  rw [isBareLabel_of_endsOutput hend]
  exact finds_pure none ts₁

/-- A query that selects one expression from items that end the text. -/
theorem finds_selection {items : List Node} (h : expression.Finds (k :: ts) n ts₁) (hk : StartsColumn k)
    (hend : endsOutput (firstOf ts₁) = true) (hitems : (listAfter .FROM sources).Finds ts₁ items []) :
    selection.Finds (k :: ts) { targets := [⟨none, some n⟩], sources := items } [] := by
  have hword : ∀ j ∈ [.star, .keyword .DISTINCT, .keyword .ALL], firstOf (k :: ts) ≠ j := by
    rintro j hj rfl
    exact hk.words hj
  have hoptional : optionalDistinct.Finds (k :: ts) none (k :: ts) :=
    (finds_accept_other (hword _ (by simp))).bind (Finds.bind
      ((finds_accept_other (hword _ (by simp))).bind (finds_pure () _)) (finds_pure none _))
  have hcolumns : outputColumns.Finds (k :: ts) [⟨none, some n⟩] ts₁ := by
    refine finds_kind_bind ?_
    rw [firstOf_cons, hk.output]
    exact finds_commaList_one (finds_outputColumn h (hword _ (by simp)) hend)
      (ne_of_endsOutput hend rfl)
  -- no other clause follows, since the items end the text
  refine hoptional.bind (hcolumns.bind (hitems.bind ?_))
  refine (finds_after_other TokenKind.noConfusion).bind ((finds_listAfter_other TokenKind.noConfusion).bind ?_)
  exact (finds_after_other TokenKind.noConfusion).bind
    ((finds_listAfter_other TokenKind.noConfusion).bind (finds_pure _ []))

/-- A query that is its first word and what it selects. -/
theorem finds_tail_combination (h : selection.Finds ts s []) (hties : hasUnorderedTies s = false) :
    (combination >>= tail).Finds (.keyword .SELECT :: ts) s [] := by
  have hsimple : simpleQuery.Finds (.keyword .SELECT :: ts) s [] := finds_kind_bind (finds_skip_bind h)
  exact (hsimple.bind (finds_combinationOf_same rfl)).bind (finds_tail_same rfl hties)

theorem finds_statement_select (h : selection.Finds ts s []) (hties : hasUnorderedTies s = false) :
    statement.Finds (.keyword .SELECT :: ts) (.select s) [] := by
  have hwith : firstOf (.keyword .SELECT :: ts) ≠ .keyword .WITH := by
    rw [firstOf_cons]
    decide
  have hquery : query.Finds (.keyword .SELECT :: ts) s [] :=
    finds_query ((finds_accept_other hwith).bind (finds_tail_combination h hties))
  exact finds_kind_bind (hquery.bind (finds_pure _ []))

theorem finds_statement_with {w : With} (hctes : ctes.Finds ts w (.keyword .SELECT :: ts₁))
    (h : selection.Finds ts₁ s []) (hties : hasUnorderedTies s = false) (hplain : s.ctes = none) :
    statement.Finds (.keyword .WITH :: ts) (.select { s with ctes := some w }) [] := by
  have hafter : (queryAfter w).Finds (.keyword .SELECT :: ts₁) { s with ctes := some w } [] := by
    refine finds_index_bind fun first => ?_
    rw [← bind_assoc]
    refine (finds_tail_combination h hties).bind ?_
    rw [hplain]
    exact finds_pure _ []
  have hchange : change?.Finds (.keyword .SELECT :: ts₁) none (.keyword .SELECT :: ts₁) :=
    finds_kind_bind (finds_pure none _)
  exact finds_kind_bind (finds_skip_bind (hctes.bind (hchange.bind (hafter.bind (finds_pure _ [])))))

/-- A statement at the end of the text is whole. -/
theorem finds_wholeStatement (h : statement.Finds ts n []) : wholeStatement.Finds ts n [] :=
  h.bind (finds_kind_bind (finds_pure n []))

end Grammar

end SqlSyntax
