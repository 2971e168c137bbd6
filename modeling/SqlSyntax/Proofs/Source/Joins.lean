import SqlSyntax.Proofs.Source.Tables

/-!
# Joins are read back

A join is read from the item at its start, to which one join after the other is added.  So only
a join on the right needs parentheses, and a join with a name of its own.  What these parentheses
hold starts like an item, so it is not taken for a query.

## Main definitions

* `Node.Joined` — items that are joined from tables and from subqueries of constants and columns.
* `Node.SourceReads` — an item is read back, with the joins behind it.

## Main results

* `reads_moreJoins` — a step over a join.
* `reads_enclosedSourceBody` — **parentheses around an item hold that item.**
* `Joined.sourceReads` — **joins are read back.**
-/

namespace SqlSyntax

open Grammar

variable {k m n : Nat} {rest ts ts' ts₁ : List TokenKind} {label : Option Alias} {es : List Node}
variable {i first v : Node} {j : Join} {q : Select}
variable {R : (r : Rule) → List TokenKind → r.Result → List TokenKind → Prop}

/-- Items of `FROM` that are joined from tables and from subqueries of constants and columns. -/
inductive Node.Joined : Node → Prop
  | table (t : TableRef) : Joined (.table t)
  | derivedTable {es : List Node} (hne : es ≠ []) (h : ∀ e ∈ es, e.IsAtom) (label : Option Alias) :
    Joined (.derivedTable ⟨false, .ofColumns es, label⟩)
  | join {j : Join} (hcondition : ∀ v ∈ j.condition, v.IsAtom) (hleft : Joined j.left)
    (hright : Joined j.right) : Joined (.join j)

/-! ### Tokens -/

theorem kinds_derivedTable (q : Select) (label : Option Alias) :
    (Node.derivedTable ⟨false, q, label⟩).kinds
      = .leftParen :: (q.kinds ++ .rightParen :: labelKinds label) := by
  rw [Node.kinds, Node.derivedTable_pieces, DerivedTable.pieces]
  simp [labelKinds, Select.kinds]

/-- The tokens of the second item of a join. -/
def secondKinds (i : Node) : List TokenKind :=
  if isOpenJoin i then .leftParen :: (i.kinds ++ [.rightParen]) else i.kinds

/-- The tokens of the words for a join. -/
def joinKinds (j : Join) : List TokenKind :=
  (if j.natural then [.keyword .NATURAL] else [])
    ++ (Join.words j.kind (!j.natural && j.condition.isNone && j.columns.isEmpty)).map .keyword

/-- The tokens of the condition of a join. -/
def conditionKinds (j : Join) : List TokenKind :=
  if j.columns.isEmpty then j.condition.elim [] fun v => .keyword .ON :: v.kinds
  else .keyword .USING :: nameListKinds j.columns

/-- A join without its name. -/
def Join.unnamed (j : Join) : Join :=
  { j with label := none }

theorem conditionKinds_nil (hcondition : j.condition = none) (hcolumns : j.columns = []) :
    conditionKinds j = [] := by
  simp [conditionKinds, hcondition, hcolumns]

theorem Join.unnamed_eq (h : j.label = none) : j.unnamed = j := by
  cases j
  cases h
  rfl

theorem Node.labelled_unnamed {a : Alias} (h : j.label = some a) :
    (Node.join j.unnamed).labelled (some a) = .join j := by
  cases j
  cases h
  rfl

/-- A name takes parentheses around the join. -/
theorem pieces_join (j : Join) : (Node.join j).pieces
    = parensIf j.label.isSome (Node.join j.unnamed).pieces ++ labelPieces j.label := by
  obtain ⟨kind, natural, left, right, columns, condition, label⟩ := j
  rw [Join.unnamed, Node.join_pieces, Node.join_pieces, Join.pieces, Join.pieces]
  simp [labelPieces, parensIf, optionalClause]

/-- The pieces of the condition of a join. -/
def conditionPieces (j : Join) : List Piece :=
  if j.columns.isEmpty then optionalClause [.ON] (j.condition.map Node.pieces)
  else clause [.USING] (parens (nameList j.columns))

/-- A join without a name is written as its items with its words between them. -/
theorem pieces_unnamed (j : Join) : (Node.join j.unnamed).pieces
    = j.left.pieces ++ .gap :: (wordsIf j.natural [.NATURAL]
        ++ words (Join.words j.kind (!j.natural && j.condition.isNone && j.columns.isEmpty)))
      ++ .gap :: parensIf (isOpenJoin j.right) j.right.pieces ++ conditionPieces j := by
  obtain ⟨kind, natural, left, right, columns, condition, label⟩ := j
  rw [Join.unnamed, Node.join_pieces, Join.pieces]
  simp only [labelPieces, optionalClause, Option.map_none, Option.elim_none, List.append_nil,
    Option.isSome_none, parensIf, Bool.false_eq_true, if_false, conditionPieces, List.append_assoc,
    List.cons_append]
  cases condition <;> rfl

theorem kindsOf_conditionPieces (j : Join) : kindsOf (conditionPieces j) = conditionKinds j := by
  rw [conditionPieces, conditionKinds]
  split
  · cases j.condition <;> simp [Node.kinds]
  · simp only [kindsOf_clause, kindsOf_nameList, List.map_singleton, List.singleton_append]

theorem kinds_unnamed (j : Join) : (Node.join j.unnamed).kinds
    = j.left.kinds ++ (joinKinds j ++ (secondKinds j.right ++ conditionKinds j)) := by
  have hright : kindsOf (parensIf (isOpenJoin j.right) j.right.pieces) = secondKinds j.right := by
    rw [secondKinds]
    cases isOpenJoin j.right
    · rfl
    · exact kindsOf_parens _
  rw [Node.kinds, pieces_unnamed]
  simp only [kindsOf_append, kindsOf_cons, kinds_gap, List.nil_append, hright, kindsOf_conditionPieces,
    kindsOf_wordsIf, kindsOf_words, joinKinds, Node.kinds, List.append_assoc, List.map_singleton]

/-- A join is written in parentheses in front of its name. -/
theorem kinds_named {a : Alias} (h : j.label = some a) : (Node.join j).kinds
    = .leftParen :: ((Node.join j.unnamed).kinds ++ .rightParen :: labelKinds (some a)) := by
  rw [Node.kinds, pieces_join, h, parensIf, Option.isSome_some, if_pos rfl, kindsOf_append,
    kindsOf_parens, ← Node.kinds, ← labelKinds, List.append_assoc, List.cons_append, List.cons_append,
    List.nil_append]

/-- The condition of a join may stand behind an item. -/
theorem endsSource_condition (j : Join) (h : EndsSource rest) :
    EndsSource (conditionKinds j ++ rest) := by
  unfold conditionKinds
  split
  · cases j.condition with
    | none => exact h
    | some v => rfl
  · rfl

/-! ### Steps -/

namespace Grammar

open SqlSyntax.Parser (bind_eq Steps)

/-- The words for the kind of a join. -/
theorem reads_joinKind (kind : JoinKind) (ts : List TokenKind) :
    joinKind?.ReadsWith R (settle ((Join.words kind false).map .keyword ++ ts)) (some kind)
      (.keyword .JOIN :: settle ts) := by
  cases kind <;> simp [Join.words, joinKind?, TokenKind.keyword?]

/-- The condition of a join is read back. -/
theorem reads_joinCondition (hj : j.IsRead n) (hatom : ∀ v ∈ j.condition, v.IsAtom)
    (hsome : j.condition ≠ none ∨ j.columns ≠ []) (hends : EndsSource rest) :
    (joinCondition { j with columns := [], condition := none }).ReadsWith (Rule.Within n)
      (settle (conditionKinds j ++ rest)) j (settle rest) := by
  obtain ⟨kind, natural, left, right, columns, condition, label⟩ := j
  rw [conditionKinds]
  by_cases hcolumns : columns = []
  · obtain ⟨v, rfl⟩ := Option.ne_none_iff_exists'.mp (hsome.resolve_right (absurd hcolumns))
    subst hcolumns
    have hread : expression.ReadsWith (Rule.Within n) (settle (v.kinds ++ rest)) v (settle rest) :=
      (hatom v rfl).reads_operand (hj.condition v rfl) hends.follows
    rw [List.isEmpty_nil, if_pos rfl, Option.elim_some, List.cons_append, settle_cons, before_eq rfl]
    simp only [joinCondition, bind_eq, reads_acceptWord_bind, firstOf_cons, if_true, List.tail_cons]
    exact Parser.readsWith_bind hread ⟨rfl, rfl⟩
  · obtain rfl : condition = none := hj.single hcolumns
    have hread : nameList.ReadsWith (Rule.Within n) (settle (nameListKinds columns ++ rest)) columns
        (settle rest) := reads_nameList hcolumns
    rw [if_neg (by simpa using hcolumns), List.cons_append, settle_cons, before_eq rfl]
    simp only [joinCondition, bind_eq, reads_acceptWord_bind, firstOf_cons, if_true, List.tail_cons,
      reduceCtorEq, TokenKind.keyword.injEq, if_false]
    exact Parser.readsWith_bind hread ⟨rfl, rfl⟩

/-- A step over the words for a join, with the parser for what stands behind its kind. -/
theorem reads_moreJoins_kind {left : Node} (kind : JoinKind)
    (h : (joinedWith kind false left).ReadsWith R (.keyword .JOIN :: settle ts) v ts') :
    (moreJoins left).ReadsWith R (settle ((Join.words kind false).map .keyword ++ ts)) (some v)
      ts' := by
  have hfirst : firstOf (settle ((Join.words kind false).map .keyword ++ ts)) ≠ .keyword .NATURAL ∧
      firstOf (settle ((Join.words kind false).map .keyword ++ ts)) ≠ .keyword .CROSS := by
    cases kind <;> exact ⟨nofun, nofun⟩
  simp only [moreJoins, bind_eq, reads_acceptWord_bind, hfirst, if_false, Bool.false_eq_true]
  refine Parser.readsWith_bind (reads_joinKind kind ts) ?_
  exact Parser.readsWith_bind h ⟨rfl, rfl⟩

/-- A step over a join. -/
theorem reads_moreJoins (hj : j.IsRead n) (hatom : ∀ v ∈ j.condition, v.IsAtom)
    (hright : ∀ rest, EndsSource rest → sourcePrimary.ReadsWith (Rule.Within n)
      (settle (secondKinds j.right ++ rest)) j.right (settle rest)) (hends : EndsSource rest) :
    (moreJoins j.left).ReadsWith (Rule.Within n)
      (settle (joinKinds j ++ (secondKinds j.right ++ (conditionKinds j ++ rest))))
      (some (.join j.unnamed)) (settle rest) := by
  have hright := hright _ (endsSource_condition j hends)
  cases hnatural : j.natural with
  | true =>
    obtain ⟨hcondition, hcolumns⟩ := hj.natural hnatural
    have hnone := conditionKinds_nil hcondition hcolumns
    have hsame : j.unnamed = { kind := j.kind, natural := true, left := j.left, right := j.right } := by
      rw [Join.unnamed, hnatural, hcondition, hcolumns]
    rw [hnone, List.nil_append] at hright ⊢
    rw [joinKinds, hnatural, if_pos rfl, List.append_assoc, List.singleton_append, settle_cons,
      before_eq rfl]
    simp only [moreJoins, naturalJoin, bind_eq, reads_acceptWord_bind, firstOf_cons, if_true,
      List.tail_cons, reads_bind_bind]
    refine Parser.readsWith_bind (reads_joinKind j.kind _) ?_
    simp only [joinedWith, bind_eq, reads_bind_bind, reads_expectWord_bind, firstOf_cons, List.tail_cons,
      true_and]
    refine Parser.readsWith_bind hright ?_
    rw [hsame]
    exact ⟨rfl, rfl⟩
  | false =>
    by_cases hsome : j.condition ≠ none ∨ j.columns ≠ []
    · have hwords : joinKinds j = (Join.words j.kind false).map .keyword := by
        have hcrossed : (j.condition.isNone && j.columns.isEmpty) = false := by
          simpa [Option.isNone_eq_false_iff, ← Option.ne_none_iff_isSome, imp_iff_not_or] using hsome
        rw [joinKinds, hnatural, if_neg Bool.false_ne_true, Bool.not_false, Bool.true_and, hcrossed,
          List.nil_append]
      have hsame : ({ j.unnamed with columns := [], condition := none } : Join)
          = { kind := j.kind, natural := false, left := j.left, right := j.right } := by
        rw [Join.unnamed, hnatural]
      have hcondition := reads_joinCondition (j := j.unnamed) ⟨hj.condition, hj.columns, (fun _ ha => by cases ha),
        hj.natural, hj.single, hj.crossed⟩ hatom hsome hends
      rw [hsame] at hcondition
      rw [hwords]
      refine reads_moreJoins_kind j.kind ?_
      simp only [joinedWith, bind_eq, reads_expectWord_bind, firstOf_cons, List.tail_cons, true_and]
      refine Parser.readsWith_bind hright ?_
      exact Parser.readsWith_bind hcondition ⟨rfl, rfl⟩
    · obtain ⟨hcondition, hcolumns⟩ := not_or.mp hsome
      rw [not_not] at hcondition hcolumns
      have hkind : j.kind = .inner := hj.crossed hnatural hcondition hcolumns
      have hnone := conditionKinds_nil hcondition hcolumns
      have hwords : joinKinds j = [.keyword .CROSS, .keyword .JOIN] := by
        simp [joinKinds, hnatural, hcondition, hcolumns, hkind, Join.words]
      have hsame : j.unnamed = { kind := .inner, left := j.left, right := j.right } := by
        rw [Join.unnamed, hnatural, hcondition, hcolumns, hkind]
      rw [hnone, List.nil_append] at hright ⊢
      rw [hwords, hsame]
      have hsettle (ts : List TokenKind) : settle ([.keyword .CROSS, .keyword .JOIN] ++ ts)
          = .keyword .CROSS :: .keyword .JOIN :: settle ts := by simp
      rw [hsettle]
      simp only [moreJoins, crossJoin, bind_eq, reads_acceptWord_bind, firstOf_cons, reduceCtorEq,
        TokenKind.keyword.injEq, if_false, if_true, Bool.false_eq_true, List.tail_cons, reads_bind_bind,
        reads_expectWord_bind, true_and]
      exact Parser.readsWith_bind hright ⟨rfl, rfl⟩

/-- Behind the items of a list stands no join. -/
theorem reads_moreJoins_none (i : Node) (h : EndsItem rest) :
    (moreJoins i).ReadsWith R (settle rest) none (settle rest) := by
  have hne {w : Keyword} (hw : endsList (.keyword w) = false) : firstOf (settle rest) ≠ .keyword w :=
    h.ne hw nofun
  have hkind : joinKind?.ReadsWith R (settle rest) none (settle rest) := by
    simp only [joinKind?, bind_eq, reads_kind_bind]
    split <;> first
      | (next heq =>
          unfold TokenKind.keyword? at heq
          split at heq
          · next hfirst =>
            cases heq
            exact absurd hfirst (hne rfl)
          · cases heq)
      | exact ⟨rfl, rfl⟩
  simp only [moreJoins, bind_eq, reads_acceptWord_bind, hne (w := .NATURAL) rfl,
    hne (w := .CROSS) rfl, if_false, Bool.false_eq_true]
  exact Parser.readsWith_bind hkind ⟨rfl, rfl⟩

/-! ### Parentheses -/

/-- No name stands in front of what may stand behind a list. -/
theorem not_name_of_endsList {k : TokenKind} (h : endsList k = true) :
    isName k = false ∧ k ≠ .keyword .AS := by
  unfold endsList continuesQuery at h
  repeat' split at h
  all_goals first
    | exact ⟨rfl, nofun⟩
    | cases h

/-- A subquery in parentheses is an item if it is followed by something other than what a query
goes on with. -/
theorem endsList_of_reads_derivedTable {lateral : Bool}
    (h : (derivedTable lateral q).ReadsWith R ts i ts₁) (hnext : endsList (firstOf ts₁) = false) :
    endsList (firstOf ts) = false := by
  rw [← Bool.not_eq_true]
  intro hends
  obtain ⟨hname, has⟩ := not_name_of_endsList hends
  have heq : ts = ts₁ := by
    simp [derivedTable, optionalAlias, has, hname] at h
    exact h.2
  rw [← heq, hends] at hnext
  cases hnext

/-- Parentheses hold the item that they start with, with the joins behind it. -/
theorem reads_enclosedSourceBody (hstarts : startsQuery (firstOf ts) = false)
    (hread : sourcePrimary.ReadsWith R ts first ts₁) (hnext : endsList (firstOf ts₁) = false)
    (hjoins : (joins first).ReadsWith R ts₁ v ts') :
    enclosedSourceBody.ReadsWith R ts (.item v) ts' := by
  simp only [enclosedSourceBody, bind_eq, reads_kind_bind, hstarts, Bool.false_eq_true, if_false]
  split
  · next hparen =>
    simp only [sourcePrimary, bind_eq, reads_acceptWord_bind, reads_isAt_bind, hparen, reduceCtorEq,
      if_false, decide_true, if_true] at hread
    obtain ⟨e, ts₂, he, hread⟩ := hread
    refine ⟨e, ts₂, he, ?_⟩
    show (afterEnclosedSource e).ReadsWith R ts₂ (.item v) ts'
    cases e with
    | item i =>
      have hread : (optionalAlias.bind fun a => Parser.done (i.labelled a)).ReadsWith R ts₂ first ts₁ :=
        hread
      have hitem := Parser.readsWith_bind (f := fun i => (joins i).bind fun v => .done (Enclosed.item v))
        hread (Parser.readsWith_bind hjoins ⟨rfl, rfl⟩)
      rw [Parser.bind_bind] at hitem
      exact hitem
    | query s =>
      have hread : (derivedTable false s).ReadsWith R ts₂ first ts₁ := hread
      have hcontinues : (continuesQuery (firstOf ts₂) || firstOf ts₂ == .rightParen) = false := by
        have hends := endsList_of_reads_derivedTable hread hnext
        unfold endsList at hends
        split at hends
        · cases hends
        · cases hends
        · next hparen => simpa [hends] using hparen
      simp only [afterEnclosedSource, bind_eq, reads_kind_bind, hcontinues, Bool.false_eq_true, if_false]
      exact Parser.readsWith_bind hread (Parser.readsWith_bind hjoins ⟨rfl, rfl⟩)
  · exact Parser.readsWith_bind (Parser.readsWith_bind hread hjoins) ⟨rfl, rfl⟩

end Grammar

/-! ### Items -/

/-- An item of `FROM` is read back from its start, with the joins behind it, and by itself unless
it is a join without a name.  Behind the start of such a join stands the word for a join. -/
structure Node.SourceReads (i : Node) (n : Nat) : Prop where
  starts : ∀ rest, EndsSource rest → StartsSource (settle (i.kinds ++ rest))
  joined : ∀ rest v ts', EndsSource rest →
    Parser.Steps (Rule.Within n) moreJoins i (settle rest) v ts' →
    ∃ first ts₁, sourcePrimary.ReadsWith (Rule.Within n) (settle (i.kinds ++ rest)) first ts₁ ∧
      Parser.Steps (Rule.Within n) moreJoins first ts₁ v ts' ∧
      (isOpenJoin i = false ∧ ts₁ = settle rest ∨ endsList (firstOf ts₁) = false)
  alone : isOpenJoin i = false → ∀ rest, EndsSource rest →
    sourcePrimary.ReadsWith (Rule.Within n) (settle (i.kinds ++ rest)) i (settle rest)

namespace Node.SourceReads

open SqlSyntax.Parser (bind_eq Steps)

/-- An item that is no join, or has a name, is read back by itself. -/
theorem of_alone (hopen : isOpenJoin i = false)
    (hstarts : ∀ rest, EndsSource rest → StartsSource (settle (i.kinds ++ rest)))
    (h : ∀ rest, EndsSource rest →
      sourcePrimary.ReadsWith (Rule.Within n) (settle (i.kinds ++ rest)) i (settle rest)) :
    i.SourceReads n := by
  refine ⟨hstarts, fun rest v ts' hends hsteps => ?_, fun _ => h⟩
  exact ⟨i, settle rest, h rest hends, hsteps, .inl ⟨hopen, rfl⟩⟩

/-- An item is read back with its joins. -/
theorem reads (h : i.SourceReads n) (hends : EndsItem rest) :
    source.ReadsWith (Rule.Within n) (settle (i.kinds ++ rest)) i (settle rest) := by
  obtain ⟨first, ts₁, hread, hsteps, -⟩ := h.joined rest i _ hends.source
    (.last (reads_moreJoins_none i hends))
  exact Parser.readsWith_bind hread hsteps.reads

/-- A join in parentheses is read back, with the name behind it. -/
theorem reads_enclosed (h : i.SourceReads n) (hopen : isOpenJoin i = true) (label : Option Alias)
    (hends : EndsSource rest) : sourcePrimary.ReadsWith (Rule.Within (n + 1))
      (settle (.leftParen :: (i.kinds ++ .rightParen :: (labelKinds label ++ rest))))
      (i.labelled label) (settle rest) := by
  have hparen : EndsItem (.rightParen :: (labelKinds label ++ rest)) := .inr rfl
  obtain ⟨first, ts₁, hread, hsteps, hnext⟩ := h.joined _ i _ hparen.source
    (.last (reads_moreJoins_none i hparen))
  have hnext : endsList (firstOf ts₁) = false :=
    hnext.resolve_left fun hnext => Bool.false_ne_true (hnext.1.symm.trans hopen)
  have hbody := reads_enclosedSourceBody (h.starts _ hparen.source).startsQuery_eq hread hnext
    hsteps.reads
  rw [settle_paren (by simp)]
  simp only [sourcePrimary, bind_eq, reads_acceptWord_bind, firstOf_cons, reduceCtorEq, if_false,
    reads_isAt_bind, decide_true, if_true]
  refine ⟨.item i, settle (labelKinds label ++ rest), reads_parenthesized hbody, ?_⟩
  show (optionalAlias.bind fun a => Parser.done (i.labelled a)).ReadsWith _ _ _ _
  exact Parser.readsWith_bind (reads_optionalAlias label hends) ⟨rfl, rfl⟩

/-- The second item of a join is read back. -/
theorem reads_second (h : i.SourceReads k) (hle : k + (isOpenJoin i).toNat ≤ n)
    (hends : EndsSource rest) : sourcePrimary.ReadsWith (Rule.Within n)
      (settle (secondKinds i ++ rest)) i (settle rest) := by
  rw [secondKinds]
  cases hopen : isOpenJoin i with
  | false =>
    have hle : k ≤ n := Nat.le_trans (Nat.le_add_right _ _) hle
    exact (h.alone hopen rest hends).mono fun _ _ _ _ => Rule.Within.mono hle
  | true =>
    have hle : k + 1 ≤ n := by rwa [hopen] at hle
    have hread := h.reads_enclosed hopen none hends
    rw [if_pos rfl, List.cons_append, List.append_assoc]
    exact hread.mono fun _ _ _ _ => Rule.Within.mono hle

end Node.SourceReads

namespace Grammar

open SqlSyntax.Parser (bind_eq Steps)

/-- A subquery is read back, with the name behind it. -/
theorem reads_derivedTable (hne : es ≠ []) (h : (Select.ofColumns es).ReadsBack n)
    (label : Option Alias) (hends : EndsSource rest) : sourcePrimary.ReadsWith (Rule.Within (n + 2))
      (settle ((Node.derivedTable ⟨false, .ofColumns es, label⟩).kinds ++ rest))
      (.derivedTable ⟨false, .ofColumns es, label⟩) (settle rest) := by
  let q := Select.ofColumns es
  let behind := labelKinds label ++ rest
  have hquery : query.ReadsWith (Rule.Within (n + 1)) (settle (q.kinds ++ .rightParen :: behind)) q
      (settle (.rightParen :: behind)) :=
    ⟨q, _, h.whole (.rightParen :: behind) (.inr rfl), rfl, rfl⟩
  have hstarts : startsQuery (firstOf (settle (q.kinds ++ .rightParen :: behind))) = true := by
    rw [kinds_columns hne, List.cons_append, settle_cons, before_eq rfl]
    rfl
  have hbody : enclosedSourceBody.ReadsWith (Rule.Within (n + 1))
      (settle (q.kinds ++ .rightParen :: behind)) (.query q) (.rightParen :: settle behind) := by
    simp only [enclosedSourceBody, bind_eq, reads_kind_bind, hstarts, if_true]
    exact Parser.readsWith_bind hquery ⟨rfl, rfl⟩
  rw [kinds_derivedTable, List.cons_append, List.append_assoc, List.cons_append,
    settle_paren (by simp)]
  simp only [sourcePrimary, bind_eq, reads_acceptWord_bind, firstOf_cons, reduceCtorEq, if_false,
    reads_isAt_bind, decide_true, if_true]
  refine ⟨.query q, settle behind, reads_parenthesized hbody, ?_⟩
  show (derivedTable false q).ReadsWith _ _ _ _
  exact Parser.readsWith_bind (reads_optionalAlias label hends) ⟨rfl, rfl⟩

theorem starts_derivedTable (q : Select) (label : Option Alias) (rest : List TokenKind) :
    StartsSource (settle ((Node.derivedTable ⟨false, q, label⟩).kinds ++ rest)) := by
  rw [kinds_derivedTable]
  exact .inl rfl

/-- The words for a join follow an item, but end no list. -/
theorem firstOf_joinKinds (j : Join) (ts : List TokenKind) :
    EndsSource (joinKinds j ++ ts) ∧ endsList (firstOf (settle (joinKinds j ++ ts))) = false := by
  unfold joinKinds
  cases j.natural with
  | true => exact ⟨rfl, rfl⟩
  | false =>
    rw [if_neg Bool.false_ne_true, List.nil_append]
    generalize (!false && j.condition.isNone && j.columns.isEmpty) = crossed
    cases j.kind <;> cases crossed <;> exact ⟨rfl, rfl⟩

/-- A join without a name is read back from its first item. -/
theorem sourceReads_unnamed (hj : j.IsRead n) (hatom : ∀ v ∈ j.condition, v.IsAtom)
    (hleft : j.left.SourceReads n) (hright : j.right.SourceReads k)
    (hle : k + (isOpenJoin j.right).toNat ≤ n) : (Node.join j.unnamed).SourceReads n := by
  have hwords (rest : List TokenKind) := firstOf_joinKinds j
    (secondKinds j.right ++ (conditionKinds j ++ rest))
  have hkinds (rest : List TokenKind) : (Node.join j.unnamed).kinds ++ rest
      = j.left.kinds ++ (joinKinds j ++ (secondKinds j.right ++ (conditionKinds j ++ rest))) := by
    rw [kinds_unnamed, List.append_assoc, List.append_assoc, List.append_assoc]
  refine ⟨fun rest _ => ?_, fun rest v ts' hends hsteps => ?_, fun hopen => absurd hopen Bool.false_ne_true.symm⟩
  · rw [hkinds]
    exact hleft.starts _ (hwords rest).1
  · have hstep := reads_moreJoins hj hatom (fun _ hrest => hright.reads_second hle hrest) hends
    have hmoves : (settle rest).length < (settle (joinKinds j
        ++ (secondKinds j.right ++ (conditionKinds j ++ rest)))).length := by
      have hpos : 0 < (joinKinds j).length := by
        refine List.length_pos_iff.mpr fun hnil => ?_
        have hnone := (firstOf_joinKinds j []).2
        rw [hnil] at hnone
        cases hnone
      simp only [length_settle, List.length_append]
      omega
    rw [hkinds]
    obtain ⟨first, ts₁, hread, hfirst, hnext⟩ := hleft.joined _ v ts' (hwords rest).1
      (.more hstep hmoves hsteps)
    refine ⟨first, ts₁, hread, hfirst, .inr ?_⟩
    rcases hnext with ⟨-, rfl⟩ | hnext
    · exact (hwords rest).2
    · exact hnext

end Grammar

/-- **Joins are read back**, if they fit in the levels that there are. -/
theorem Node.Joined.sourceReads (h : i.Joined) (hfits : i.SourceFits n) (hsound : i.Sound) :
    i.SourceReads n := by
  induction h generalizing n with
  | table t =>
    obtain ⟨ht, -⟩ := hfits
    exact .of_alone rfl (fun _ => starts_table) fun _ => reads_table ht
  | @derivedTable es hne hes label =>
    cases hfits with
    | derivedTable htargets _ =>
      have hfits := Select.fits_ofColumns htargets
      have hsound : (Node.select (.ofColumns es)).Sound :=
        (sound_iff.mp hsound).2 _ List.mem_cons_self
      have hread := (Select.Elementary.columns hne hes).readsBack hfits hsound
      have hpos : 0 < n - 2 := (columns_fit hne hes hfits.clauses).2
      obtain ⟨m, rfl⟩ : ∃ m, n = m + 2 := ⟨n - 2, by omega⟩
      exact .of_alone rfl (fun _ _ => starts_derivedTable _ _ _) fun _ =>
        reads_derivedTable hne hread label
  | @join j hcondition hleft hright ihl ihr =>
    obtain ⟨-, hbelow⟩ := sound_iff.mp hsound
    cases hfits with
    | @join _ k m _ hlabel hopen hj hfitsl hfitsr =>
      -- the levels that the name of the join leaves
      obtain ⟨p, hp, hm⟩ : ∃ p, p + j.label.isSome.toNat = n ∧ m ≤ p :=
        ⟨n - j.label.isSome.toNat, by omega, by omega⟩
      have hl := ihl (hfitsl.mono hm) (hbelow _ (by simp [children]))
      have hr := ihr hfitsr (hbelow _ (by simp [children]))
      have hunnamed := sourceReads_unnamed (hj.mono hm) hcondition hl hr (Nat.le_trans hopen hm)
      cases hname : j.label with
      | none =>
        rw [hname] at hp
        rw [Join.unnamed_eq hname] at hunnamed
        exact hp ▸ hunnamed
      | some a =>
        have hkinds (rest : List TokenKind) : (Node.join j).kinds ++ rest
            = .leftParen :: ((Node.join j.unnamed).kinds
              ++ .rightParen :: (labelKinds (some a) ++ rest)) := by
          rw [kinds_named hname, List.cons_append, List.append_assoc, List.cons_append]
        rw [hname] at hp
        refine .of_alone (by rw [isOpenJoin, hname]; rfl) (fun rest _ => ?_) fun rest hends => ?_
        · rw [hkinds]
          exact .inl rfl
        · rw [hkinds, ← hp, ← labelled_unnamed hname]
          exact hunnamed.reads_enclosed rfl (some a) hends

end SqlSyntax
