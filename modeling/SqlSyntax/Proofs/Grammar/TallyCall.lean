import SqlSyntax.Grammar.Expression
import SqlSyntax.Proofs.Grammar.TallyWords

/-!
# Types and calls keep the account

The modifiers of a type and the parts of a call are all that they hold.  A length that is
not written holds nothing.

## Main results

* `tallies_typeName` — types.
* `tallies_windowInParens` — windows, with the distances of their frames.
* `tallies_call` — **calls, with all that may stand behind them.**
-/

namespace SqlSyntax
namespace Grammar

open SqlSyntax.Parser

/-! ### Types -/

theorem tallies_optionalModifiers : optionalModifiers.Tallies (total Node.params) :=
  tallies_test_bind (tallies_parenthesized tallies_expressions) (tallies_pure rfl)

instance (first : IntervalField) : (rangeEnd first).Quiet := by
  unfold rangeEnd
  refine quiet_kind (fun m => inferInstanceAs (Quiet misplaced)) fun k _ => ?_
  split <;> infer_instance

instance (first : IntervalField) : (intervalRange first).Quiet := by
  unfold intervalRange
  infer_instance

theorem tallies_optionalPrecision (r : IntervalRange) :
    (optionalPrecision r).Tallies (total Node.params) := by
  refine tallies_ite (fun _ => ?_) fun _ => tallies_pure rfl
  refine tallies_test_bind ?_ (tallies_pure rfl)
  exact quiet_bind fun n => tallies_pure (by simp)

theorem tallies_intervalModifiers : intervalModifiers.Tallies (total Node.params) := by
  refine tallies_kind_bind (fun m => tallies_pure rfl) fun k _ => ?_
  split
  · exact tallies_pure rfl
  · refine tallies_skip_bind (quiet_bind fun r => ?_)
    exact (tallies_optionalPrecision r).bind fun ns => tallies_pure (by simp)

theorem tallies_modifiedType (type : String) : (modifiedType type).Tallies TypeName.params :=
  tallies_optionalModifiers.bind fun _ => tallies_pure (zero_add _)

theorem tallies_fixedLengthType (type : String) : (fixedLengthType type).Tallies TypeName.params := by
  refine tallies_optionalModifiers.bind fun ns => tallies_pure ?_
  -- a length of one stands for no modifiers
  cases ns with
  | nil => simp [TypeName.params]
  | cons n ns => simp [TypeName.params]

theorem tallies_stringType (fixed varying : String) :
    (stringType fixed varying).Tallies TypeName.params :=
  tallies_test_bind (tallies_modifiedType varying) (tallies_fixedLengthType fixed)

theorem tallies_floatOfPrecision (first : Nat) (bits : Int) :
    (floatOfPrecision first bits).Tallies TypeName.params := by
  refine tallies_ite (fun _ => tallies_fail _) fun _ => ?_
  refine tallies_ite (fun _ => tallies_pure rfl) fun _ => ?_
  exact tallies_ite (fun _ => tallies_pure rfl) fun _ => tallies_fail _

theorem tallies_floatType : floatType.Tallies TypeName.params := by
  refine tallies_test_bind ?_ (tallies_pure rfl)
  refine tallies_still_bind fun first => quiet_bind fun bits => quiet_bind fun _ => ?_
  exact tallies_floatOfPrecision first bits

instance : optionalZone.Quiet := by
  unfold optionalZone
  refine quiet_kind (fun m => inferInstanceAs (Quiet (pure false))) fun k _ => ?_
  split <;> infer_instance

theorem tallies_timeType (plain zoned : String) : (timeType plain zoned).Tallies TypeName.params :=
  tallies_optionalModifiers.bind fun _ => quiet_bind fun _ => tallies_pure (zero_add _)

theorem tallies_intervalType : intervalType.Tallies TypeName.params := by
  refine tallies_test_bind ?_ ?_
  · exact quiet_bind fun n => tallies_pure (by simp [TypeName.params])
  · exact tallies_intervalModifiers.bind fun ns => tallies_pure (zero_add _)

theorem tallies_namedType : namedType.Tallies TypeName.params := by
  refine quiet_bind fun first => quiet_bind fun names => ?_
  exact tallies_optionalModifiers.bind fun ns => tallies_pure (zero_add _)

theorem tallies_typeOfWord (w : Keyword) : (typeOfWord w).TalliesFrom 1 0 TypeName.params := by
  have hnamed : namedType.TalliesFrom 1 0 TypeName.params := tallies_namedType.of_le (Nat.zero_le 1)
  have hstring : (stringType "bpchar" "varchar").Tallies TypeName.params := tallies_stringType _ _
  unfold typeOfWord
  split
  case h_3 =>
    -- `DOUBLE`, which is a name unless `PRECISION` follows
    refine tallies_isBefore_bind (.keyword .PRECISION) ?_ hnamed
    exact tallies_skip_bind (tallies_skip_bind (tallies_pure rfl))
  case h_11 =>
    -- `NATIONAL`, with `CHAR` or `CHARACTER` behind it
    refine tallies_skip_bind (tallies_test_bind hstring ?_)
    exact quiet_bind fun _ => hstring
  case h_16 => exact hnamed
  -- all other words are passed over and leave the rest to one production
  all_goals apply tallies_skip_bind
  · exact tallies_pure rfl
  · exact tallies_floatType
  · exact tallies_modifiedType _
  · exact tallies_modifiedType _
  · exact tallies_modifiedType _
  · exact tallies_stringType _ _
  · exact hstring
  · exact hstring
  · exact hstring
  · exact tallies_modifiedType _
  · exact tallies_timeType _ _
  · exact tallies_timeType _ _
  · exact tallies_intervalType

theorem tallies_plainType : plainType.Tallies TypeName.params := by
  refine tallies_kind_bind (fun m => tallies_namedType) fun k _ => ?_
  split
  · exact tallies_typeOfWord _
  · exact tallies_namedType.of_le (Nat.zero_le 1)

instance : dimension.Quiet := by
  unfold dimension
  infer_instance

instance (bounds : List Int) : (moreDimensions bounds).Quiet := by
  unfold moreDimensions
  infer_instance

instance : dimensions.Quiet := by
  unfold dimensions
  infer_instance

theorem tallies_typeName : typeName.Tallies TypeName.params := by
  refine quiet_bind fun setof => tallies_plainType.bind fun type => quiet_bind fun bounds => ?_
  exact tallies_pure (zero_add _)

/-! ### Sort keys -/

instance : optionalNulls.Quiet := by
  unfold optionalNulls
  infer_instance

instance : optionalDirection.Quiet := by
  unfold optionalDirection
  infer_instance

instance : sortDirection.Quiet := by
  have hkind : (kind >>= fun k => readAs k.operator? .operator >>= fun s =>
      pure (SortDirection.byOperator s)).Quiet :=
    quiet_kind (fun m => inferInstanceAs (unexpected _).Quiet) fun _ _ => inferInstance
  have hdirection (d : SortDirection) : (match d with
      | .unspecified => do
        if ← acceptWord .USING then
          return .byOperator (← readAs (← kind).operator? .operator)
        else return .unspecified
      | d => return d : Parser SortDirection).Quiet := by
    split <;> infer_instance
  exact ⟨quiet_bind fun d => (hdirection d).tallies⟩

theorem tallies_sortKey : sortKey.Tallies SortKey.params := by
  refine tallies_expression.bind fun key => quiet_bind fun direction => quiet_bind fun nulls => ?_
  exact tallies_pure (zero_add _)

theorem tallies_sortKeys : sortKeys.Tallies (total SortKey.params) :=
  quiet_bind fun _ => tallies_commaList tallies_sortKey

theorem tallies_optionalOrder : optionalOrder.Tallies (total SortKey.params) :=
  tallies_listAfter .ORDER tallies_sortKeys

/-! ### Windows -/

theorem tallies_frameBound : frameBound.Tallies FrameBound.params := by
  refine tallies_test_bind ?_ ?_
  · exact tallies_test_bind (tallies_pure rfl) (quiet_bind fun _ => tallies_pure rfl)
  · refine tallies_isAtWords_bind .CURRENT .ROW ?_ ?_
    · exact tallies_skip_bind (tallies_skip_bind (tallies_pure rfl))
    · -- the only bounds with an expression
      refine tallies_expression.bind fun distance => tallies_test_bind ?_ (quiet_bind fun _ => ?_)
      · exact tallies_pure (add_comm 0 distance.params)
      · exact tallies_pure (add_comm 0 distance.params)

instance : frameExclusion.Quiet := by
  unfold frameExclusion
  refine quiet_kind (fun m => inferInstanceAs (Quiet (unexpected _))) fun k _ => ?_
  split <;> infer_instance

theorem tallies_frameBounds :
    frameBounds.Tallies fun p => p.1.params + total FrameBound.params p.2.toList := by
  refine tallies_test_bind ?_ ?_
  · refine tallies_frameBound.bind fun start => quiet_bind fun _ => ?_
    exact tallies_frameBound.bind fun stop => tallies_pure (by simp)
  · exact tallies_frameBound.bind fun start => tallies_pure (by simp)

theorem tallies_optionalFrame :
    optionalFrame.Tallies fun o => total Frame.params o.toList := by
  refine tallies_kind_bind (fun m => tallies_pure rfl) fun k _ => ?_
  split
  · exact tallies_pure rfl
  · refine tallies_skip_bind (tallies_frameBounds.bind fun bounds => quiet_bind fun exclusion => ?_)
    exact tallies_pure (by simp [Frame.params])

instance : optionalBase.Quiet := by
  unfold optionalBase
  refine quiet_kind (fun m => inferInstanceAs (Quiet (pure none))) fun k _ => ?_
  infer_instance

theorem tallies_partitionKeys : partitionKeys.Tallies (total Node.params) :=
  quiet_bind fun _ => tallies_expressions

theorem tallies_windowBody : windowBody.Tallies Window.params := by
  refine quiet_bind fun base => ?_
  refine (tallies_listAfter .PARTITION tallies_partitionKeys).bind fun keys => ?_
  refine tallies_optionalOrder.bind fun order => tallies_optionalFrame.bind fun frame => ?_
  exact tallies_pure (by simp [Window.params])

theorem tallies_windowInParens : windowInParens.Tallies Window.params :=
  tallies_parenthesized tallies_windowBody

theorem tallies_callWindow : callWindow.Tallies Window.params := by
  refine tallies_test_bind tallies_windowInParens (quiet_bind fun s => ?_)
  exact tallies_pure (by simp [Window.params])

/-! ### Calls -/

/-- A name is read in front of a token that is no parameter, which may be passed over
then. -/
theorem tallies_callName_bind {β : Type} {f : String → Parser β} {held : Multiset Int}
    {w : β → Multiset Int} {v : View} (hv : v.next.params = 0)
    (hf : ∀ s, (f s).TalliesFrom 1 held w) :
    (callName >>= f).Tracks v fun b v' => held + v'.read = v.read + w b := by
  change ((readAs (nameOf? Keyword.isTypeName v.kind) .name) >>= f).Tracks v _
  cases hname : nameOf? Keyword.isTypeName v.kind with
  | none =>
    have hfail : (refuse (.unexpected (some .name)) : Parser β).TalliesFrom 0 held w :=
      tallies_refuse _
    exact hfail v v.knows_zero
  | some s =>
    have hkind : v.kind.params = 0 := by
      cases hk : v.kind with
      | param m => rw [hk] at hname; cases hname
      | _ => rfl
    have hskip : (skip >>= fun _ => f s).TalliesFrom 2 held w := tallies_skip_bind (hf s)
    exact hskip v ⟨Nat.le_refl 2, fun _ => hkind, fun _ => hv⟩

/-- An argument asks for the second token without regard to the first. -/
theorem tallies_argument : argument.Tallies Node.params := by
  intro v hv
  refine tracks_nextKind_bind ?_
  have hplain := tallies_expression v hv
  have hname (s : String) : (skip >>= fun _ => expression >>= fun n =>
      pure (Node.namedArg s n)).TalliesFrom 1 0 Node.params :=
    tallies_skip_bind (tallies_expression.bind fun n => tallies_pure (by simp))
  split
  case h_1 h => exact tallies_callName_bind (h ▸ rfl) hname
  case h_2 h => exact tallies_callName_bind (h ▸ rfl) hname
  case h_3 => exact hplain

instance : distinctOrAll.Quiet := by
  unfold distinctOrAll
  infer_instance

/-- The parentheses of a call hold arguments and their order. -/
theorem tallies_callBody (function : List String) : (callBody function).Tallies
    fun c => total Node.params c.args + total SortKey.params c.order := by
  refine tallies_test_bind (tallies_pure rfl) ?_
  refine tallies_test_bind (tallies_pure rfl) (quiet_bind fun distinct => ?_)
  refine (tallies_commaList tallies_argument).bind fun args => ?_
  exact tallies_optionalOrder.bind fun order => tallies_pure (by simp)

theorem tallies_optionalFilter :
    optionalFilter.Tallies fun o => total Node.params o.toList := by
  refine tallies_isAt_bind (.keyword .FILTER) ?_ (tallies_pure rfl)
  refine tallies_isBefore_bind .leftParen ?_ (tallies_pure rfl)
  refine tallies_skip_bind (tallies_skip_bind (quiet_bind fun _ => ?_))
  exact tallies_expression.bind fun n => quiet_bind fun _ => tallies_pure (by simp)

theorem tallies_call (function : List String) : (call function).Tallies Call.params := by
  refine (tallies_parenthesized (tallies_callBody function)).bind fun c => ?_
  refine tallies_optionalFilter.bind fun condition => ?_
  refine (tallies_after .OVER tallies_callWindow).bind fun window => ?_
  exact tallies_pure (by simp [Call.params])

end Grammar
end SqlSyntax
