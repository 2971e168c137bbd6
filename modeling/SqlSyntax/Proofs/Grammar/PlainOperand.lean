import SqlSyntax.Proofs.Grammar.PlainType

/-!
# Operands that are read

Each production for an operand builds an expression that is plain if it is simple.  What a
plain expression has no place for — a window or a subquery — makes the expression one that is
not simple.

## Main results

* `call_plain`, `named_plain` — what starts with a name.
* `specialBody_plain` — the functions with a syntax of their own.
* `primary_plain` — **operands that are read.**
-/

namespace SqlSyntax
namespace Grammar

open SqlSyntax.Parser

variable {q : Prop}

/-! ### Sort keys -/

/-- Every operator that a token spells can be read. -/
theorem isOperator_of_operator? {k : TokenKind} (hk : k.IsRead) :
    ∀ op ∈ k.operator?, IsOperator op := by
  intro op hop
  cases k with
  | op s =>
    cases hop
    exact hk.1
  | plus | minus | star | slash | percent | caret | eq | lt | gt | ltEq | gtEq | notEq =>
    cases hop
    exact ⟨by decide, by decide, by decide⟩
  | _ => cases hop

/-- A sort key that is read. -/
def KeyIf (q : Prop) (k : SortKey) : Prop :=
  k.key.PlainIf q ∧ k.direction.IsRead

theorem sortDirection_plain : sortDirection.Yields (plainly q) SortDirection.IsRead := by
  have hword : optionalDirection.Yields (plainly q) SortDirection.IsRead := by
    unfold optionalDirection
    refine yields_bind_any fun asc => yields_ite (fun _ => yields_pure trivial) fun _ => ?_
    refine yields_bind_any fun desc => yields_ite (fun _ => yields_pure trivial) fun _ => ?_
    exact yields_pure trivial
  unfold sortDirection
  refine hword.bind fun direction hdirection => ?_
  split
  · refine yields_bind_any fun found => yields_ite (fun _ => ?_) fun _ => yields_pure trivial
    refine yields_kind_bind fun k hk => ?_
    exact (yields_readAs (isOperator_of_operator? hk.1) _).bind fun op hop => yields_pure hop
  · exact yields_pure hdirection

theorem sortKey_plain : sortKey.Yields (plainly q) (KeyIf q) := by
  unfold sortKey
  refine expression_plain.bind fun key hkey => ?_
  refine sortDirection_plain.bind fun direction hdirection => ?_
  exact yields_bind_any fun nulls => yields_pure ⟨hkey, hdirection⟩

theorem optionalOrder_plain :
    optionalOrder.Yields (plainly q) fun ks => ∀ k ∈ ks, KeyIf q k := by
  refine yields_listAfter .ORDER ?_
  unfold sortKeys
  exact yields_bind_any fun _ => yields_commaList_mem sortKey_plain

/-! ### Calls -/

/-- An argument that is read, with its name if it has one. -/
def ArgumentIf (q : Prop) (n : Node) : Prop :=
  ∃ name arg, n = Node.argument name arg ∧ (∀ s ∈ name, IsName s) ∧ arg.PlainIf q

theorem argument_plain : argument.Yields (plainly q) (ArgumentIf q) := by
  have hnamed : (do
      let s ← callName
      skip
      return Node.namedArg s (← expression) : Parser Node).Yields (plainly q) (ArgumentIf q) := by
    refine callName_plain.bind fun s hs => yields_bind_any fun _ => ?_
    refine expression_plain.bind fun arg harg => yields_pure ?_
    exact ⟨some s, arg, rfl, forall_mem_some hs.1, harg⟩
  unfold argument
  refine yields_bind_any fun k => ?_
  split
  · exact hnamed
  · exact hnamed
  · exact expression_plain.mono fun arg harg => ⟨none, arg, rfl, forall_mem_none, harg⟩

/-- Arguments that are read, as names and expressions. -/
theorem exists_arguments {ns : List Node} (h : ∀ n ∈ ns, ArgumentIf q n) :
    ∃ args : List (Option String × Node), ns = args.map (fun a => Node.argument a.1 a.2) ∧
      (∀ a ∈ args, ∀ s ∈ a.1, IsName s) ∧ ∀ a ∈ args, a.2.PlainIf q := by
  induction ns with
  | nil => exact ⟨[], rfl, nofun, nofun⟩
  | cons n ns ih =>
    obtain ⟨⟨name, arg, rfl, hname, harg⟩, hns⟩ := List.forall_mem_cons.mp h
    obtain ⟨args, rfl, hnames, hargs⟩ := ih hns
    exact ⟨(name, arg) :: args, rfl, List.forall_mem_cons.mpr ⟨hname, hnames⟩,
      List.forall_mem_cons.mpr ⟨harg, hargs⟩⟩

theorem callBody_plain (function : List String) :
    (callBody function).Yields (plainly q) (Call.PlainIf q function) := by
  unfold callBody
  refine yields_bind_any fun star => yields_ite (fun _ => yields_pure .star) fun _ => ?_
  refine yields_bind_any fun closed => yields_ite (fun _ => yields_pure .empty) fun _ => ?_
  refine yields_bind_any fun distinct => ?_
  refine (yields_commaList argument_plain).bind fun ns ⟨hne, hns⟩ => ?_
  refine optionalOrder_plain.bind fun order horder => yields_pure ?_
  obtain ⟨args, rfl, hnames, hargs⟩ := exists_arguments hns
  exact .full (fun hnil => hne (by rw [hnil]; rfl)) hnames hargs (fun k hk => (horder k hk).1)
    (fun k hk => (horder k hk).2) distinct

theorem optionalFilter_plain :
    optionalFilter.Yields (plainly q) fun o => ∀ n ∈ o, n.PlainIf q := by
  unfold optionalFilter
  refine yields_bind_any fun filter => yields_ite (fun _ => ?_) fun _ => yields_pure forall_mem_none
  refine yields_bind_any fun parens => yields_ite (fun _ => ?_) fun _ => yields_pure forall_mem_none
  refine yields_bind_any fun _ => yields_bind_any fun _ => yields_bind_any fun _ => ?_
  refine expression_plain.bind fun condition hcondition => ?_
  exact yields_bind_any fun _ => yields_pure (forall_mem_some hcondition)

theorem call_plain {function : List String} (hne : function ≠ [])
    (hfunction : ∀ s ∈ function, IsName s) :
    (call function).Yields (plainly q) fun c => (Node.call c).PlainIf q := by
  unfold call
  refine (yields_parenthesized (callBody_plain function)).bind fun c hc => ?_
  refine optionalFilter_plain.bind fun filter hfilter => ?_
  refine yields_bind_any fun window => yields_pure ?_
  exact Node.plainIf_call hne hfunction hc hfilter

/-! ### Names -/

theorem moreSteps_plain {steps : List Step} (hsteps : ∀ s ∈ steps, s.PlainIf q) :
    (moreSteps steps).Yields (plainly q) fun o => ∀ ss ∈ o, ∀ s ∈ ss, s.PlainIf q := by
  have hcons {s : Step} (hs : s.PlainIf q) : ∀ ss ∈ some (s :: steps), ∀ s ∈ ss, s.PlainIf q :=
    forall_mem_some (List.forall_mem_cons.mpr ⟨hs, hsteps⟩)
  unfold moreSteps
  refine yields_bind_any fun bracket => yields_ite (fun _ => ?_) fun _ => ?_
  · exact yields_subscript.bind fun s hs => yields_pure (hcons (s := .subscript s) hs)
  refine yields_bind_any fun dot => yields_ite (fun _ => ?_) fun _ => yields_pure forall_mem_none
  refine yields_bind_any fun star => yields_ite (fun _ => ?_) fun _ => ?_
  · exact yields_pure (hcons (s := .star) trivial)
  · exact label_plain.bind fun name hname => yields_pure (hcons (s := .field name) hname.1)

theorem indirection_plain {arg : Node} (harg : arg.PlainIf q) :
    (indirection arg).Yields (plainly q) (Node.PlainIf q) := by
  have hmore : (iterate moreSteps []).Yields (plainly q) fun ss => ∀ s ∈ ss, s.PlainIf q :=
    yields_iterate nofun fun steps => moreSteps_plain
  unfold indirection
  refine hmore.bind fun steps hsteps => yields_pure ?_
  split
  · exact harg
  · next hne =>
    refine Node.plainIf_indirection harg (fun hnil => hne ?_) fun s hs =>
      hsteps s (List.mem_reverse.mp hs)
    rw [hnil]
    rfl

/-- The words behind the constant may be the fields of an interval. -/
theorem typedConstant_plain {type : TypeName} (htype : type.PlainIf q) :
    (typedConstant type).Yields (plainly q) (Node.PlainIf q) := by
  unfold typedConstant
  refine yields_bind_any fun k => ?_
  split
  · next s =>
    refine yields_bind_any fun _ => yields_ite (fun hinterval => ?_) fun _ => ?_
    · refine intervalModifiers_plain.bind fun ns hns => yields_pure ?_
      rw [Bool.and_eq_true, decide_eq_true_eq] at hinterval
      have hspoken : ({ type with modifiers := ns } : TypeName).isSpoken = true := by
        simpa only [TypeName.isSpoken, hinterval.1] using hns.1
      exact Node.plainIf_cast (Node.plainIf_string s)
        ⟨htype.nonempty, htype.names, htype.bounds, hns.2, .inr hspoken⟩
    · exact yields_pure (Node.plainIf_cast (Node.plainIf_string s) htype)
  · exact yields_unexpected _

/-- The names of a dotted name, of which there is at least one. -/
def PathIf (q : Prop) (p : Path) : Prop :=
  p.names ≠ [] ∧ ∀ s ∈ p.names, NameIf q s

theorem morePath_plain {p : Path} (hp : PathIf q p) :
    (morePath p).Yields (plainly q) fun o => ∀ p' ∈ o, PathIf q p' := by
  unfold morePath
  refine yields_ite (fun _ => yields_pure forall_mem_none) fun _ => ?_
  refine yields_bind_any fun dot => yields_ite (fun _ => ?_) fun _ => yields_pure forall_mem_none
  refine yields_bind_any fun star => yields_ite (fun _ => ?_) fun _ => ?_
  · exact yields_pure (forall_mem_some hp)
  · refine label_plain.bind fun s hs => yields_pure (forall_mem_some ?_)
    exact ⟨List.cons_ne_nil s _, List.forall_mem_cons.mpr ⟨hs, hp.2⟩⟩

theorem named_plain {first : String} (hfirst : NameIf q first) :
    (named first).Yields (plainly q) (Node.PlainIf q) := by
  have hpath : (iterate morePath { names := [first] }).Yields (plainly q) (PathIf q) :=
    yields_iterate ⟨List.cons_ne_nil first [], List.forall_mem_singleton.mpr hfirst⟩
      fun p hp => morePath_plain hp
  unfold named
  refine hpath.bind fun p hp => ?_
  have hne : p.names.reverse ≠ [] := List.reverse_ne_nil_iff.mpr hp.1
  have hnames : ∀ s ∈ p.names.reverse, NameIf q s := fun s hs => hp.2 s (List.mem_reverse.mp hs)
  have hread : ∀ s ∈ p.names.reverse, IsName s := fun s hs => (hnames s hs).1
  have hcolumn : (Node.ofNames p.names.reverse).PlainIf q := by
    simpa [columnFields, Node.ofNames] using Node.plainIf_column (q := q) hne hread false
  refine yields_ite (fun _ => yields_pure (Node.plainIf_column hne hread true)) fun _ => ?_
  refine yields_bind_any fun k => ?_
  split
  · exact (call_plain hne hread).bind fun c hc => yields_pure hc
  · exact typedConstant_plain (plainIf_names hne hnames (List.forall_mem_nil _))
  · exact indirection_plain hcolumn

/-! ### Constructs in words -/

theorem arms_plain : arms.Yields (plainly q) fun as =>
    as ≠ [] ∧ ∀ a ∈ as, a.condition.PlainIf q ∧ a.result.PlainIf q := by
  have hsteps : (iterate moreArms []).Yields (plainly q) fun as =>
      ∀ a ∈ as, a.condition.PlainIf q ∧ a.result.PlainIf q := by
    refine yields_iterate nofun fun as has => ?_
    unfold moreArms
    refine yields_bind_any fun more => yields_ite (fun _ => ?_) fun _ => yields_pure forall_mem_none
    refine expression_plain.bind fun condition hcondition => yields_bind_any fun _ => ?_
    refine expression_plain.bind fun result hresult => yields_pure (forall_mem_some ?_)
    exact List.forall_mem_cons.mpr ⟨⟨hcondition, hresult⟩, has⟩
  unfold arms
  refine hsteps.bind fun as has => ?_
  split
  · exact yields_unexpected _
  · next hne => exact yields_pure ⟨hne, fun a ha => has a (List.mem_reverse.mp ha)⟩

theorem caseExpression_plain : caseExpression.Yields (plainly q) (Node.PlainIf q) := by
  unfold caseExpression
  refine (yields_optionalBound _).bind fun operand hoperand => ?_
  refine arms_plain.bind fun arms harms => ?_
  refine (yields_after .ELSE expression_plain).bind fun otherwise hotherwise => ?_
  exact yields_bind_any fun _ =>
    yields_pure (Node.plainIf_caseExpr hoperand harms.1 harms.2 hotherwise)

theorem castBody_plain : castBody.Yields (plainly q) (Node.PlainIf q) := by
  unfold castBody
  refine expression_plain.bind fun arg harg => yields_bind_any fun _ => ?_
  exact typeName_plain.bind fun type htype => yields_pure (Node.plainIf_cast harg htype)

theorem elements_plain : elements.Yields (plainly q) fun es => ∀ n ∈ es, n.PlainIf q := by
  have helement : element.Yields (plainly q) (Node.PlainIf q) := by
    unfold element
    refine yields_bind_any fun bracket => yields_ite (fun _ => ?_) fun _ => expression_plain
    exact yields_call fun es hes => yields_pure (Node.plainIf_array hes)
  have hlist : elementList.Yields (plainly q) fun es => ∀ n ∈ es, n.PlainIf q := by
    unfold elementList
    refine yields_bind_any fun closed => ?_
    refine yields_ite (fun _ => yields_pure (List.forall_mem_nil _)) fun _ => ?_
    exact yields_commaList_mem helement
  unfold elements
  refine yields_bind_any fun _ => hlist.bind fun es hes => ?_
  exact yields_bind_any fun _ => yields_pure hes

theorem array_plain : array.Yields (plainly q) (Node.PlainIf q) := by
  unfold array
  refine yields_bind_any fun parens => yields_ite (fun _ => ?_) fun _ => ?_
  · exact yields_bind_any fun s => yields_pure (Node.plainIf_subquery _)
  · exact elements_plain.bind fun es hes => yields_pure (Node.plainIf_array hes)

theorem rowFields_plain : rowFields.Yields (plainly q) fun ns => ∀ n ∈ ns, n.PlainIf q := by
  unfold rowFields
  refine yields_bind_any fun closed => ?_
  refine yields_ite (fun _ => yields_pure (List.forall_mem_nil _)) fun _ => ?_
  exact expressions_mem_plain

/-! ### Functions with a syntax of their own -/

theorem trimFunction_plain :
    trimFunction.Yields (plainly q) fun function => function ∈ unspokenFunctions := by
  unfold trimFunction
  refine yields_bind_any fun leading => yields_ite (fun _ => yields_pure (by decide)) fun _ => ?_
  refine yields_bind_any fun trailing => yields_ite (fun _ => yields_pure (by decide)) fun _ => ?_
  exact yields_bind_any fun _ => yields_pure (by decide)

theorem extractArgs_plain : extractArgs.Yields (plainly q) fun ns =>
    ∃ field source, ns = [Node.string field, source] ∧ source.PlainIf q := by
  unfold extractArgs
  refine yields_bind_any fun k => yields_bind_any fun field => yields_bind_any fun _ => ?_
  exact expression_plain.bind fun source hsource => yields_pure ⟨field, source, rfl, hsource⟩

theorem specialBody_plain (f : SpecialFunction) :
    (specialBody f).Yields (plainly q) (Node.PlainIf q) := by
  cases f with
  | coalesce =>
    exact expressions_plain.bind fun ns hns => yields_pure (Node.plainIf_coalesce hns.1 hns.2)
  | greatest | least =>
    exact expressions_plain.bind fun ns hns => yields_pure (Node.plainIf_extremum _ hns.1 hns.2)
  | nullif =>
    refine expression_plain.bind fun left hleft => yields_bind_any fun _ => ?_
    exact expression_plain.bind fun right hright => yields_pure (Node.plainIf_nullIf hleft hright)
  | extract =>
    refine extractArgs_plain.bind fun ns hns => yields_pure ?_
    obtain ⟨field, source, rfl, hsource⟩ := hns
    exact Node.plainIf_extract field hsource
  | position | substring =>
    exact yields_bind_any fun ns => yields_pure (Node.plainIf_unspoken (by decide) ns)
  | trim =>
    refine trimFunction_plain.bind fun function hfunction => ?_
    exact yields_bind_any fun ns => yields_pure (Node.plainIf_unspoken hfunction ns)

theorem valueFunction_plain (f : ValueFunction) :
    (valueFunction f).Yields (plainly q) (Node.PlainIf q) := by
  have halone : (Node.valueFunction f none).PlainIf q := Node.plainIf_valueFunction nofun
  unfold valueFunction
  refine yields_ite (fun htakes => ?_) fun _ => yields_pure halone
  refine yields_bind_any fun parens => yields_ite (fun _ => ?_) fun _ => yields_pure halone
  refine (yields_parenthesized integer_plain).bind fun p hp => yields_pure ?_
  exact Node.plainIf_valueFunction (forall_mem_some ⟨htakes, hp⟩)

/-! ### Operands -/

theorem namedByWord_plain (w : Keyword) (beforeParen : Bool) :
    (namedByWord w beforeParen).Yields (plainly q) (Node.PlainIf q) := by
  unfold namedByWord
  refine yields_ite (fun _ => ?_) fun _ => yields_unexpected _
  exact yields_bind_any fun _ => named_plain w.nameIf_spelling

theorem operandOfWord_plain (w : Keyword) (beforeParen : Bool) :
    (operandOfWord w beforeParen).Yields (plainly q) (Node.PlainIf q) := by
  unfold operandOfWord
  split
  iterate 2
    · exact yields_bind_any fun _ => yields_pure (Node.plainIf_const (.boolean _))
  · exact yields_bind_any fun _ => yields_pure (Node.plainIf_const .null)
  · exact yields_bind_any fun _ => caseExpression_plain
  · exact yields_bind_any fun _ => yields_parenthesized castBody_plain
  · exact yields_bind_any fun _ => yields_bind_any fun s => yields_pure (Node.plainIf_subquery _)
  · exact yields_bind_any fun _ => array_plain.bind fun n hn => indirection_plain hn
  · refine yields_ite (fun _ => yields_bind_any fun _ => ?_) fun _ => namedByWord_plain _ _
    refine (yields_parenthesized rowFields_plain).bind fun ns hns => ?_
    exact indirection_plain (Node.plainIf_row hns (by simp))
  · split
    · exact yields_bind_any fun _ => yields_parenthesized (specialBody_plain _)
    · exact namedByWord_plain _ _

theorem startingWith_plain (w : Keyword) :
    (startingWith w).Yields (plainly q) (Node.PlainIf q) := by
  unfold startingWith
  split
  · exact yields_bind_any fun _ => valueFunction_plain _
  · refine yields_bind_any fun typed => yields_ite (fun _ => ?_) fun _ => ?_
    · exact plainType_plain.bind fun type htype => typedConstant_plain htype
    · exact yields_bind_any fun beforeParen => operandOfWord_plain w beforeParen

/-- The constant of a token can be read. -/
theorem isRead_of_constant? {k : TokenKind} (hk : k.IsRead) : ∀ v ∈ k.constant?, v.IsRead := by
  intro v hv
  cases k with
  | string s =>
    cases hv
    exact .string s
  | integer n =>
    cases hv
    exact .integer hk.2
  | float s =>
    cases hv
    exact String.ofList_toList (s := s) ▸ .float hk
  | binary s =>
    cases hv
    have hs : "b" ++ s = String.ofList ('b' :: s.toList) := by
      rw [String.ext_iff]
      simp
    exact hs ▸ .binary hk
  | hex s =>
    cases hv
    have hs : "x" ++ s = String.ofList ('x' :: s.toList) := by
      rw [String.ext_iff]
      simp
    exact hs ▸ .hex hk
  | _ => cases hv

/-- Operands that are read. -/
theorem primary_plain : primary.Yields (plainly q) (Node.PlainIf q) := by
  unfold primary
  refine yields_kind_bind fun k hk => ?_
  split
  · next v hv =>
    exact yields_bind_any fun _ => yields_pure (Node.plainIf_const (isRead_of_constant? hk.1 v hv))
  · exact yields_bind_any fun _ => indirection_plain (Node.plainIf_param hk.1)
  · exact enclosedContent_plain.bind fun e he => indirection_plain he
  · next s _ _ =>
    exact yields_bind_any fun _ => named_plain ⟨hk.1, fun heq => hk.2 (by rw [heq])⟩
  · exact startingWith_plain _
  · exact yields_unexpected _

end Grammar
end SqlSyntax
