import SqlSyntax.Proofs.Expression.Readback
import SqlSyntax.Proofs.Expression.Simple
import SqlSyntax.Proofs.Rendering.Written

/-!
# Plain expressions are written as their tokens

The text of a plain expression is read as the tokens of its pieces: between two of its
pieces stands a border wherever they could run into each other, and a sign stands in
front of nothing that starts with an operator.

## Main results

* `Node.Plain.startsWith` — an operand of a sign starts with no operator.
* `written_type` — a type is read as the tokens that it is written as.
* `Node.Plain.written` — **a plain expression is read as the tokens that it is written as.**
-/

namespace SqlSyntax

open Grammar

variable {level : Level} {ps : List Piece} {arg l r : Node} {ns : List Node}
variable {filter : Option Node}

/-! ### Operands -/

theorem written_tight (h : Written arg.pieces) :
    Written ((Operand.mk arg.level arg.pieces).tight level) := by
  unfold Operand.tight Operand.wrapIf
  split
  · exact h.parens.written
  · exact h

theorem written_loose (h : Written arg.pieces) :
    Written ((Operand.mk arg.level arg.pieces).loose level) := by
  unfold Operand.loose Operand.wrapIf
  split
  · exact h.parens.written
  · exact h

theorem written_left (h : Written arg.pieces) :
    Written ((Operand.mk arg.level arg.pieces).left level) := by
  unfold Operand.left
  split
  · exact written_tight h
  · exact written_loose h

/-! ### Operations -/

theorem written_nodes (h : ∀ n ∈ ns, Written n.pieces) : Written (commas (nodesPieces ns)) := by
  rw [nodesPieces_eq]
  exact written_commas (List.forall_mem_map.mpr h)

theorem written_predicate {ws : List Keyword} (harg : Written arg.pieces) (hps : Written ps) :
    Written (predicatePieces level ws ⟨arg.level, arg.pieces⟩ ps) :=
  ((written_tight harg).append (written_words ws).gap).append hps.gap

/-- An operator with a gap in front and behind. -/
theorem trails_operator {op : String} (h : IsOperator op) (hps : Written ps) :
    Trails (.gap :: .operator op :: .gap :: ps) :=
  ((written_operator h).append hps.gap).gap

/-- An operator between two operands, and a comparison with all or any. -/
theorem written_operation {kind : OperationKind} {op : String}
    (hkind : kind = .op ∨ kind = .opAny ∨ kind = .opAll) (h : IsOperator op)
    (hl : Written l.pieces) (hr : Written r.pieces) :
    Written (Node.operation kind op (some l) (some r)).pieces := by
  have hleft : Written ((Operand.mk l.level l.pieces).left (Level.ofOperator op)) := written_left hl
  rcases hkind with rfl | rfl | rfl
  · rw [pieces_operation rfl rfl]
    exact hleft.append (trails_operator h (written_tight hr))
  · rw [pieces_operation rfl rfl]
    exact hleft.append (trails_operator h (hr.parens.written.gap.word .ANY))
  · rw [pieces_operation rfl rfl]
    exact hleft.append (trails_operator h (hr.parens.written.gap.word .ALL))

/-- `IS DISTINCT FROM`. -/
theorem written_distinct (negated : Bool) (hl : Written l.pieces) (hr : Written r.pieces) :
    Written (Node.operation (if negated then .notDistinct else .distinct) "=" (some l)
      (some r)).pieces := by
  have hright : Written ((Operand.mk r.level r.pieces).tight Level.is) := written_tight hr
  cases negated with
  | true =>
    rw [if_pos rfl, pieces_operation rfl rfl]
    exact written_predicate hl hright
  | false =>
    rw [if_neg Bool.false_ne_true, pieces_operation rfl rfl]
    exact written_predicate hl hright

/-- `NULLIF`. -/
theorem written_nullIf (hl : Written l.pieces) (hr : Written r.pieces) :
    Written (Node.operation .nullIf "=" (some l) (some r)).pieces := by
  have hargs : ∀ item ∈ [l.pieces, r.pieces], Written item :=
    List.forall_mem_cons.mpr ⟨hl, List.forall_mem_singleton.mpr hr⟩
  rw [pieces_operation rfl rfl]
  exact (written_commas hargs).parens.word .NULLIF

/-- `IN` with a list. -/
theorem written_inList {items : List Node} (negated : Bool) (harg : Written arg.pieces)
    (hitems : ∀ n ∈ items, Written n.pieces) :
    Written (Node.operation .inList (if negated then "<>" else "=") (some arg)
      (some (.list items))).pieces := by
  have hlist : Written (Node.list items).pieces := by
    rw [Node.list_pieces]
    exact written_nodes hitems
  rw [pieces_operation rfl rfl]
  exact written_predicate harg hlist.parens.written

theorem written_bounds {low high : Node} (hlow : Written low.pieces) (hhigh : Written high.pieces) :
    Written (boundsPieces ⟨low.level, low.pieces⟩ ⟨high.level, high.pieces⟩) :=
  (written_tight hlow).append ((written_tight hhigh).gap.word .AND).gap

theorem written_pattern {pattern : Node} {escape : Option Node} (hpattern : Written pattern.pieces)
    (hescape : ∀ e ∈ escape, Written e.pieces) :
    Written (patternPieces ⟨pattern.level, pattern.pieces⟩ (operand? escape)) := by
  refine (written_tight hpattern).append ?_
  cases escape with
  | none => exact trails_nil
  | some e =>
    exact ((written_tight (hescape e rfl)).gap.word .ESCAPE).gap

/-- Operands joined by `AND` or `OR`. -/
theorem written_junction {op : Junction} (hop : op ≠ .not) {first : Node} {more : List Node}
    (hfirst : Written first.pieces) (hmore : ∀ n ∈ more, Written n.pieces) :
    Written (Node.junction op (first :: more)).pieces := by
  rw [pieces_junction hop]
  refine (written_loose hfirst).append ?_
  induction more with
  | nil => exact trails_nil
  | cons n more ih =>
    rw [List.forall_mem_cons] at hmore
    rw [List.flatMap_cons]
    exact ((written_tight hmore.1).gap.word (Junction.mark op)).gap.append (ih hmore.2)

/-! ### Operators in front -/

theorem pieces_prefixed (op : String) (arg : Node) :
    (Node.prefixed op arg).pieces = prefixedPieces op ⟨arg.level, arg.pieces⟩ := by
  rw [Node.prefixed, Node.operation_pieces]
  rfl

theorem startsWith_column {names : List String} (hne : names ≠ []) (star : Bool) :
    StartsWith Opens (Node.column (columnFields names star)).pieces := by
  obtain ⟨s, names, rfl⟩ := List.exists_cons_of_ne_nil hne
  rw [pieces_column]
  exact (startsWith_name s _).mono fun c hc => hc.2

theorem startsWith_param (n : Int) : StartsWith Opens (Node.param n).pieces := by
  rw [Node.param_pieces]
  exact startsWith_cons (toList_text_param n) (by decide) []

theorem startsWith_paren (ps : List Piece) : StartsWith Opens (.mark .leftParen :: ps) :=
  ⟨'(', _, rfl, by decide⟩

/-- What binds as tightly as a sign starts with a sign or with no operator. -/
theorem Node.Plain.startsWith_tight {n : Node} (h : n.Plain) (hlevel : Level.sign ≤ n.level) :
    StartsWith (fun c => Opens c ∨ n.level = Level.sign ∧ (c = '-' ∨ c = '+')) n.pieces := by
  have hlow {l : Level} {P : Prop} (hl : l < Level.sign) (h : Level.sign ≤ l) : P :=
    absurd h (Nat.not_le.mpr hl)
  have hoperator (op : String) : Level.ofOperator op < Level.sign := by
    unfold Level.ofOperator
    repeat' split
    all_goals decide
  have hopens {P : Prop} {ps : List Piece} (h : StartsWith Opens ps) :
      StartsWith (fun c => Opens c ∨ P ∧ (c = '-' ∨ c = '+')) ps :=
    h.mono fun _ => .inl
  have hname {names : List String} (hne : names ≠ []) : StartsWith Opens (dotted names) := by
    obtain ⟨s, names, rfl⟩ := List.exists_cons_of_ne_nil hne
    rw [dotted_cons]
    exact (startsWith_name s _).mono fun c hc => hc.2
  cases h with
  | @const v hv =>
    rw [Node.const_pieces]
    refine (startsWith_literal hv []).mono fun c hc => hc.imp_right fun hc => ⟨?_, .inl hc.2⟩
    rw [Node.level, if_pos hc.1]
  | column hne _ star => exact hopens (startsWith_column hne star)
  | param _ => exact hopens (startsWith_param _)
  | @prefixed op arg _ _ _ _ =>
    have hown : (Node.prefixed op arg).level = Level.ofPrefix op := rfl
    by_cases hsign : Level.isSignOperator op = true
    · have hop : op = "-" ∨ op = "+" := by
        rwa [Level.isSignOperator, Bool.or_eq_true, beq_iff_eq, beq_iff_eq] at hsign
      rw [pieces_prefixed, prefixedPieces, if_pos hsign, hown, Level.ofPrefix, if_pos hsign]
      rcases hop with rfl | rfl
      · exact ⟨'-', _, rfl, .inr ⟨rfl, .inl rfl⟩⟩
      · exact ⟨'+', _, rfl, .inr ⟨rfl, .inr rfl⟩⟩
    · refine hlow (l := Level.operator) (by decide) ?_
      rwa [hown, Level.ofPrefix, if_neg hsign] at hlevel
  | @operation kind op l r hkind _ _ _ =>
    rcases hkind with rfl | rfl | rfl <;> exact hlow (hoperator op) hlevel
  | distinct negated _ _ => cases negated <;> exact hlow (l := Level.is) (by decide) hlevel
  | nullIf _ _ =>
    rw [pieces_operation rfl rfl]
    exact hopens (startsWith_word .NULLIF _)
  | inList _ _ _ _ => exact hlow (l := Level.predicate) (by decide) hlevel
  | range negated anyOrder _ _ _ =>
    cases negated <;> cases anyOrder <;> exact hlow (l := Level.predicate) (by decide) hlevel
  | matched hm _ _ _ _ =>
    rcases hm with rfl | rfl | rfl <;> exact hlow (l := Level.predicate) (by decide) hlevel
  | @junction op _ _ hop _ _ _ _ =>
    cases op with
    | not => exact absurd rfl hop
    | and => exact hlow (l := Level.and) (by decide) hlevel
    | or => exact hlow (l := Level.or) (by decide) hlevel
  | negation _ => exact hlow (l := Level.not) (by decide) hlevel
  | nullTest _ _ => exact hlow (l := Level.is) (by decide) hlevel
  | truthTest _ _ _ => exact hlow (l := Level.is) (by decide) hlevel
  | call hne _ _ =>
    rw [pieces_call]
    exact hopens (((hname hne).append _).append _)
  | starCall hne _ _ =>
    rw [pieces_call]
    exact hopens (((hname hne).append _).append _)
  | fullCall hne _ _ _ _ _ _ _ _ =>
    rw [Call.full, pieces_call]
    exact hopens (((hname hne).append _).append _)
  | extract _ _ =>
    rw [pieces_extract]
    exact hopens (startsWith_word .EXTRACT _)
  | timeZone _ _ => exact hlow (l := Level.timeZone) (by decide) hlevel
  | cast _ _ _ =>
    rw [Node.cast_pieces]
    exact hopens (startsWith_word .CAST _)
  | collate _ _ _ => exact hlow (l := Level.collate) (by decide) hlevel
  | caseExpr _ _ _ _ _ =>
    rw [Node.caseExpr_pieces]
    exact hopens (startsWith_word .CASE _)
  | array _ =>
    rw [Node.array_pieces]
    exact hopens (startsWith_word .ARRAY _)
  | row _ _ =>
    rw [Node.row_pieces]
    split
    · exact hopens (startsWith_word .ROW _)
    · exact hopens (startsWith_paren _)
  | @indirection arg _ harg _ _ _ _ =>
    rw [pieces_indirection]
    obtain htakes | ⟨fields, rfl⟩ | ⟨m, rfl⟩ := takesSteps_cases arg
    · rw [htakes]
      exact hopens (startsWith_paren _)
    · obtain ⟨names, star, hne, rfl⟩ := Node.plain_column_inv harg
      exact hopens ((startsWith_column hne star).append _)
    · exact hopens ((startsWith_param m).append _)
  | coalesce _ _ =>
    rw [Node.coalesce_pieces]
    exact hopens (startsWith_word .COALESCE _)
  | extremum op _ _ =>
    rw [Node.extremum_pieces]
    exact hopens (startsWith_word op.word _)
  | @valueFunction f _ _ =>
    rw [Node.valueFunction_pieces]
    exact hopens (startsWith_word f.word _)

/-- What binds more tightly than a sign starts with no operator. -/
theorem Node.Plain.startsWith {n : Node} (h : n.Plain) (hlevel : Level.sign < n.level) :
    StartsWith Opens n.pieces :=
  (h.startsWith_tight (Nat.le_of_lt hlevel)).mono fun _ hc =>
    hc.resolve_right fun hsign => absurd hsign.1 (Nat.ne_of_gt hlevel)

/-- What binds as tightly as a sign makes no other token of a colon in front of it. -/
theorem Node.Plain.leavesColon {n : Node} (h : n.Plain) (hcolon : n.LeavesColon) :
    ∀ c ∈ (charsOf n.pieces).head?, c ≠ ':' ∧ c ≠ '=' := by
  rcases hcolon with hlevel | htext
  · intro c hc
    rw [← List.append_nil (charsOf n.pieces)] at hc
    rcases (h.startsWith_tight hlevel).head [] c hc with hopens | ⟨-, rfl | rfl⟩
    · refine ⟨hopens.2, ?_⟩
      rintro rfl
      cases hopens.1
    · decide
    · decide
  · rwa [Node.text, toList_join] at htext

theorem written_prefixed {op : String} (hop : IsOperator op) (hplain : arg.Plain)
    (harg : Written arg.pieces) : Written (Node.prefixed op arg).pieces := by
  rw [pieces_prefixed, prefixedPieces]
  by_cases hsign : Level.isSignOperator op = true
  · rw [if_pos hsign]
    refine written_sign hsign (written_tight harg) ?_
    unfold Operand.tight Operand.wrapIf
    split
    · exact startsWith_paren _
    · next hlevel => exact hplain.startsWith (by simpa using hlevel)
  · rw [if_neg hsign]
    exact (written_operator hop).append (written_tight harg).gap

/-! ### Calls -/

theorem trails_filter (h : ∀ n ∈ filter, Written n.pieces) :
    Trails (optionalClause [.FILTER]
      (filter.map fun f => parens (.word .WHERE :: .gap :: f.pieces))) := by
  refine trails_optionalClause _ fun ps hps => ?_
  obtain ⟨f, hf, rfl⟩ := Option.map_eq_some_iff.mp hps
  exact ((h f hf).gap.word .WHERE).parens.written

/-- A call is read as its tokens if what stands in its parentheses is. -/
theorem written_call {function : List String} (hfunction : ∀ s ∈ function, IsName s)
    {args : List Node} {order : List SortKey} {star distinct : Bool}
    (hinside : Written (insidePieces args order star distinct))
    (hfilter : ∀ n ∈ filter, Written n.pieces) :
    Written (Node.call ⟨function, args, order, filter, none, star, distinct, .regular⟩).pieces := by
  rw [pieces_call]
  exact ((written_dotted hfunction).append hinside.parens).append (trails_filter hfilter)

theorem written_argument {a : Option String × Node} (hname : ∀ s ∈ a.1, IsName s)
    (ha : Written a.2.pieces) : Written (Node.argument a.1 a.2).pieces := by
  obtain ⟨name, arg⟩ := a
  cases name with
  | none => exact ha
  | some s =>
    have harrow : Written [.mark .equalsGreater] :=
      written_token rfl rfl (isToken_operatorChars (rfl : operatorChars ['=', '>'] = ['=', '>']) nofun)
    rw [Node.argument, Option.elim_some, Node.namedArg_pieces]
    exact (written_name (hname s rfl)).append (harrow.append ha.gap).gap

theorem written_sortKey {k : SortKey} (hkey : Written k.key.pieces)
    (hdirection : k.direction.IsRead) : Written k.pieces := by
  obtain ⟨key, direction, nulls⟩ := k
  have htrails : Trails direction.pieces := by
    cases direction with
    | unspecified => exact trails_nil
    | asc => exact (written_word .ASC).gap
    | desc => exact (written_word .DESC).gap
    | byOperator op =>
      have hop : IsOperator op := hdirection
      exact ((written_operator hop).gap.word .USING).gap
  rw [SortKey.pieces]
  exact (hkey.append htrails).append (trails_suffixWords _)

theorem sortKeysPieces_eq (ks : List SortKey) : sortKeysPieces ks = ks.map SortKey.pieces := by
  induction ks with
  | nil => rfl
  | cons k ks ih => rw [sortKeysPieces, ih, List.map_cons]

theorem written_inside {args : List Node} {order : List SortKey} (distinct : Bool)
    (hargs : ∀ n ∈ args, Written n.pieces) (hkeys : ∀ k ∈ order, Written k.pieces) :
    Written (insidePieces args order false distinct) := by
  rw [insidePieces, if_neg Bool.false_ne_true, sortKeysPieces_eq, List.append_assoc]
  refine Written.wordsIf ?_ _ _
  refine (written_commas ?_).append (trails_listClause _ ?_)
  · exact List.forall_mem_map.mpr hargs
  · exact List.forall_mem_map.mpr hkeys

/-- `EXTRACT`. -/
theorem written_extract {field : String} (hfield : IsField field) {source : Node}
    (hsource : Written source.pieces) :
    Written (Node.call (Call.system "extract" [Node.string field, source])).pieces := by
  have hpiece : Written [fieldPiece field] := by
    unfold fieldPiece
    split
    · next hbare =>
      refine written_name ⟨?_, hfield hbare⟩
      rintro rfl
      cases hbare
    · exact written_literal (.string field)
  rw [pieces_extract]
  exact (hpiece.append (hsource.gap.word .FROM).gap).parens.word .EXTRACT

/-! ### Types -/

theorem trails_modifiers {items : List (List Piece)} (h : ∀ item ∈ items, Written item) :
    Trails (modifierPieces items) := by
  unfold modifierPieces
  split
  · exact trails_nil
  · exact (written_commas h).parens

theorem trails_interval {values : Option (List Int)} {items : List (List Piece)}
    (h : ∀ item ∈ items, Written item)
    (hprecision : ∀ mask p, values = some [mask, p] → IsNatural p) :
    Trails (intervalPieces values items) := by
  have hplain : Trails (modifierPieces items) := trails_modifiers h
  have hrange (r : IntervalRange) : Trails (.gap :: r.pieces) := (written_typeWords r.words).gap
  unfold intervalPieces
  split
  · next mask rest =>
    split
    · exact (written_integer (hprecision _ _ rfl)).parens
    · exact hrange _
    · split
      · exact (hrange _).append (written_integer (hprecision _ _ rfl)).parens
      · exact hplain
    · exact hplain
  · exact hplain

/-- The dimensions of a type. -/
theorem trails_bounds {bounds : List Int} (h : ∀ b ∈ bounds, b = -1 ∨ IsNatural b) :
    Trails (boundPieces bounds) := by
  induction bounds with
  | nil => exact trails_nil
  | cons b bounds ih =>
    rw [List.forall_mem_cons] at h
    have hb : Written (if b < 0 then [] else [.mark (.integer b)]) := by
      split
      · exact written_nil
      · next hneg => exact written_integer (h.1.resolve_left (by omega))
    exact hb.brackets.append (ih h.2)

/-- A type is read as the tokens that it is written as. -/
theorem written_type {t : TypeName} (ht : t.IsRead) (hplain : ∀ n ∈ t.modifiers, n.Plain)
    (h : ∀ n ∈ t.modifiers, Written n.pieces) : Written t.pieces := by
  obtain ⟨names, modifiers, bounds, setof⟩ := t
  have hitems : ∀ item ∈ nodesPieces modifiers, Written item := by
    rw [nodesPieces_eq]
    exact List.forall_mem_map.mpr h
  have hmodifiers : Trails (modifierPieces (nodesPieces modifiers)) := trails_modifiers hitems
  have hnamed : Written (dotted names ++ modifierPieces (nodesPieces modifiers)) :=
    (written_dotted ht.names).append hmodifiers
  have htype : Written (typePieces names (modifiers.mapM integerOf?) (nodesPieces modifiers)) := by
    unfold typePieces
    split
    · next hsystem =>
      refine (trails_interval hitems fun mask p hvalues => ?_).typeWord .INTERVAL
      have hspoken := ht.spoken
      simp only [TypeName.isSpoken, hsystem, hvalues, isSpokenInterval, Bool.and_eq_true,
        decide_eq_true_eq] at hspoken
      have hread : (Literal.integer p).IsRead := by
        refine Node.plain_const_inv (hplain (.const (.integer p)) ?_)
        rw [eq_map_integer hvalues]
        simp [Node.integer]
      cases hread with
      | integer hrange => exact ⟨hspoken.1, hrange⟩
    · split
      · refine ((written_typeWords _).append hmodifiers).append ?_
        split
        · exact trails_nil
        · exact (written_typeWords _).gap
      · exact hnamed
    · exact hnamed
  rw [TypeName.pieces, List.append_assoc]
  exact (htype.append (trails_bounds ht.bounds)).wordsIf _ _

/-! ### Plain expressions -/

/-- The arms of a `CASE`. -/
theorem trails_arms {arms : List CaseArm} (hconditions : ∀ a ∈ arms, Written a.condition.pieces)
    (hresults : ∀ a ∈ arms, Written a.result.pieces) :
    Trails ((armsPieces arms).flatMap fun a => .gap :: a) := by
  induction arms with
  | nil => exact trails_nil
  | cons a arms ih =>
    rw [List.forall_mem_cons] at hconditions hresults
    obtain ⟨condition, result⟩ := a
    have harm : Written (CaseArm.mk condition result).pieces := by
      rw [CaseArm.pieces]
      exact (hconditions.1.gap.word .WHEN).append (hresults.1.clause _)
    rw [armsPieces, List.flatMap_cons]
    exact harm.gap.append (ih hconditions.2 hresults.2)

/-- `CASE`. -/
theorem written_case {operand : Option Node} {arms : List CaseArm} {otherwise : Option Node}
    (hoperand : ∀ n ∈ operand, Written n.pieces) (hconditions : ∀ a ∈ arms, Written a.condition.pieces)
    (hresults : ∀ a ∈ arms, Written a.result.pieces)
    (hotherwise : ∀ n ∈ otherwise, Written n.pieces) :
    Written (Node.caseExpr operand arms otherwise).pieces := by
  have hop : Trails ((operand? operand).elim [] fun o => .gap :: o.pieces) := by
    cases operand with
    | none => exact trails_nil
    | some o => exact (hoperand o rfl).gap
  have helse : Trails (optionalClause [.ELSE] ((operand? otherwise).map Operand.pieces)) := by
    cases otherwise with
    | none => exact trails_nil
    | some e => exact (hotherwise e rfl).clause _
  rw [Node.caseExpr_pieces]
  exact (((hop.append (trails_arms hconditions hresults)).append helse).append
    (trails_suffixWords _)).word .CASE

/-- A column reference. -/
theorem written_column {names : List String} (hne : names ≠ []) (h : ∀ s ∈ names, IsName s)
    (star : Bool) : Written (Node.column (columnFields names star)).pieces := by
  obtain ⟨s, names, rfl⟩ := List.exists_cons_of_ne_nil hne
  rw [List.forall_mem_cons] at h
  rw [pieces_column]
  cases star with
  | true =>
    obtain ⟨hwritten, hdot⟩ := written_dots h.2 (.inr rfl)
    exact written_name_cons h.1 hwritten hdot
  | false =>
    obtain ⟨hwritten, hdot⟩ := written_dots h.2 (.inl rfl)
    exact written_name_cons h.1 hwritten hdot

/-! ### Steps into a value -/

/-- A step is read back, whatever step follows. -/
theorem beforeDot_step {s : Step} (hs : s.IsRead) (hplain : ∀ n ∈ s.bounds, n.Plain)
    (hbounds : ∀ n ∈ s.bounds, Written n.pieces) : BeforeDot s.pieces := by
  cases s with
  | subscript s =>
    obtain ⟨hlower, hupper⟩ := Step.forall_mem_bounds.mp hbounds
    obtain ⟨-, hplain⟩ := Step.forall_mem_bounds.mp hplain
    obtain ⟨slice, lower, upper⟩ := s
    have hbound {bound : Option Node} (h : ∀ n ∈ bound, Written n.pieces) :
        Written ((operand? bound).elim [] Operand.pieces) := by
      cases bound with
      | none => exact written_nil
      | some n => exact h n rfl
    have hfirst := hbound hlower
    have hsecond := hbound hupper
    rw [Step.pieces, Subscript.pieces]
    cases slice with
    | false => exact hsecond.closes_brackets.beforeDot
    | true =>
      refine (hfirst.closes_slice hsecond ?_).beforeDot
      cases upper with
      | none => exact fun n hn => by cases hn
      | some n => exact (hplain n rfl).leavesColon (hs.colon rfl n rfl)
  | field name => exact (beforeDot_name hs).dot ((startsWith_name name []).mono fun c hc => hc.1)
  | star => exact beforeDot_star.dot ⟨'*', [], rfl, by decide⟩

theorem startsWith_bracket (s : Subscript) : StartsWith Breaks (Step.subscript s).pieces := by
  obtain ⟨slice, lower, upper⟩ := s
  rw [Step.pieces, Subscript.pieces]
  exact ⟨'[', _, rfl, by decide⟩

/-- A step starts with a bracket or a dot. -/
theorem startsWith_step (s : Step) : StartsWith (fun c => Breaks c ∨ c = '.') s.pieces := by
  cases s with
  | subscript s => exact (startsWith_bracket s).mono fun c hc => .inl hc
  | field | star => exact ⟨'.', _, rfl, .inr rfl⟩

theorem head_steps (steps : List Step) :
    ∀ x ∈ (charsOf (steps.flatMap Step.pieces)).head?, Breaks x ∨ x = '.' := by
  cases steps with
  | nil => exact nofun
  | cons s steps =>
    rw [List.flatMap_cons, charsOf_append]
    exact (startsWith_step s).head _

/-- Steps are read back. -/
theorem beforeDot_steps {steps : List Step} (hsteps : ∀ s ∈ steps, s.IsRead)
    (hplain : ∀ s ∈ steps, ∀ n ∈ s.bounds, n.Plain)
    (hbounds : ∀ s ∈ steps, ∀ n ∈ s.bounds, Written n.pieces) :
    BeforeDot (steps.flatMap Step.pieces) := by
  induction steps with
  | nil => exact fun t ks _ hspells => hspells
  | cons s steps ih =>
    rw [List.forall_mem_cons] at hsteps hplain hbounds
    have hstep : BeforeDot s.pieces := beforeDot_step hsteps.1 hplain.1 hbounds.1
    have hmore := ih hsteps.2 hplain.2 hbounds.2
    rw [List.flatMap_cons]
    exact hstep.append hmore (head_steps steps)

/-- A value with steps into it is read as the tokens that it is written as. -/
theorem written_indirection {steps : List Step} (harg : arg.Plain) (hwritten : Written arg.pieces)
    (hapart : arg.StepsApart steps) (hsteps : BeforeDot (steps.flatMap Step.pieces)) :
    Written (Node.indirection arg steps).pieces := by
  rw [pieces_indirection]
  obtain htakes | ⟨fields, rfl⟩ | ⟨m, rfl⟩ := takesSteps_cases arg
  · rw [htakes]
    exact (hwritten.closes_parens.beforeDot.append hsteps (head_steps steps)).written
  · -- only a bracket follows a column, as a dot would go on with its name
    obtain ⟨-, s, more, rfl⟩ := hapart
    intro t ks ht hspells
    have hhead := (startsWith_bracket s).append (more.flatMap Step.pieces)
    rw [charsOf_append, kindsOf_append, List.append_assoc, List.append_assoc]
    exact hwritten _ _ (hhead.head t) (hsteps.written t ks ht hspells)
  · have hparam : IsNatural m := by
      generalize heq : Node.param m = n at harg
      cases harg with
      | param h =>
        cases heq
        exact h
      | range negated anyOrder _ _ _ => cases negated <;> cases anyOrder <;> cases heq
      | _ => cases heq
    rw [takesSteps, Bool.not_true, parensIf, if_neg Bool.false_ne_true, Node.param_pieces]
    exact ((beforeDot_param hparam).append hsteps (head_steps steps)).written

/-- A plain expression is read as the tokens that it is written as. -/
theorem Node.Plain.written {n : Node} (h : n.Plain) : Written n.pieces := by
  induction h with
  | const h =>
    rw [const_pieces]
    exact written_literal h
  | column hne hnames star => exact written_column hne hnames star
  | param h =>
    rw [param_pieces]
    exact (beforeDot_param h).written
  | prefixed hop _ hplain _ harg => exact written_prefixed hop hplain harg
  | operation hkind hop _ _ hl hr => exact written_operation hkind hop hl hr
  | distinct negated _ _ hl hr => exact written_distinct negated hl hr
  | nullIf _ _ hl hr => exact written_nullIf hl hr
  | inList negated _ _ _ harg hitems => exact written_inList negated harg hitems
  | range negated anyOrder _ _ _ harg hlow hhigh =>
    rw [pieces_rangeTest]
    exact written_predicate harg (written_bounds hlow hhigh)
  | matched hm negated _ hplain _ harg hpattern hescape =>
    rw [pieces_matched hm negated _ (hplain.isEscapeCall_eq _)]
    exact written_predicate harg (written_pattern hpattern hescape)
  | junction hop _ _ _ _ hfirst hmore => exact written_junction hop hfirst hmore
  | negation _ harg =>
    rw [pieces_negation]
    exact (written_tight harg).gap.word .NOT
  | nullTest negated _ harg =>
    rw [nullTest_pieces]
    exact (written_tight harg).append (trails_suffixWords _)
  | truthTest truth negated _ harg =>
    rw [truthTest_pieces]
    exact (written_tight harg).append (trails_suffixWords _)
  | call _ hfunction _ hfilter =>
    have hinside : Written (insidePieces [] [] false false) := 
      written_inside false (List.forall_mem_nil _) (List.forall_mem_nil _)
    exact written_call hfunction hinside hfilter
  | starCall _ hfunction _ hfilter =>
    have hinside : Written (insidePieces [] [] true false) := written_star
    exact written_call hfunction hinside hfilter
  | fullCall _ hfunction _ _ hnames _ _ hdirections distinct hfilter hargs hkeys =>
    refine written_call hfunction (written_inside distinct ?_ ?_) hfilter
    · exact List.forall_mem_map.mpr fun a ha => written_argument (hnames a ha) (hargs a ha)
    · exact fun k hk => written_sortKey (hkeys k hk) (hdirections k hk)
  | extract hfield _ hsource => exact written_extract hfield hsource
  | timeZone _ _ hzone hsource =>
    rw [pieces_timeZone]
    exact ((written_loose hsource).append (written_words _).gap).append (written_tight hzone).gap
  | cast _ htype hplain harg hmodifiers =>
    rw [cast_pieces]
    exact (harg.append ((written_type htype hplain hmodifiers).clause _)).parens.word .CAST
  | collate _ _ hnames harg =>
    rw [collate_pieces]
    exact (written_loose harg).append ((written_dotted hnames).clause _)
  | caseExpr _ _ _ _ _ hoperand hconditions hresults hotherwise =>
    exact written_case hoperand hconditions hresults hotherwise
  | array _ hes =>
    rw [array_pieces]
    exact (written_nodes hes).brackets.word .ARRAY
  | row _ _ hfs =>
    rw [row_pieces]
    split
    · exact (written_nodes hfs).parens.word .ROW
    · exact (written_nodes hfs).parens.written
  | indirection hplain _ hapart hsteps hbounds harg hwritten =>
    exact written_indirection hplain harg hapart (beforeDot_steps hsteps hbounds hwritten)
  | coalesce _ _ hargs =>
    rw [coalesce_pieces]
    exact (written_nodes hargs).parens.word .COALESCE
  | extremum op _ _ hargs =>
    rw [extremum_pieces]
    exact (written_nodes hargs).parens.word op.word
  | @valueFunction f precision h =>
    rw [valueFunction_pieces]
    cases precision with
    | none => exact written_word f.word
    | some p => exact (written_integer (h p rfl).2).parens.word f.word

end SqlSyntax
