import SqlSyntax.Proofs.Grammar.PlainQuery
import SqlSyntax.Proofs.Tree.Fitting

/-!
# Items of `FROM` that are read fit

The values of rules are known by the levels that are left for them.  A rule that is run with
some levels runs others with one level less, so what it gives fits in the levels it had.

## Main definitions

* `fitting n` — what is known of the values of rules that are run with `n` levels.

## Main results

* `source_fits`, `sources_fit` — **items of `FROM` fit in the levels with which they are read.**
* `enclosedSource_fits` — so does what parentheses among them hold.
-/

namespace SqlSyntax

variable {α : Type} {K L : Known} {n : Nat}

/-- What is known of the values of rules that are run with `n` levels. -/
def fitting (n : Nat) : Known where
  token := (plainly True).token
  value
    | .expression _, v => v.ValueFits n
    | .query, s => s.Fits (n - 1)
    | .enclosed, e => e.operand.PlainIf True
    | .elements, es => ∀ v ∈ es, v.PlainIf True
    | .enclosedSource, e => e.SourceFits n

/-- What is ensured by less is ensured by more. -/
theorem Parser.Ensures.of_known (htoken : ∀ k, L.token k → K.token k)
    (hvalue : ∀ r v, L.value r v → K.value r v) {p : Parser α} {k : TokenKind}
    {P : α → TokenKind → Prop} (h : p.Ensures K k P) : p.Ensures L k P := by
  induction p generalizing k with
  | done | fail => exact h
  | current _ ih => exact ih k h
  | warn _ _ ih => exact ih h
  | peek _ ih => exact fun k' hk' => ih k' (h k' (htoken k' hk'))
  | place _ ih | room _ ih => exact fun n => ih n (h n)
  | advance _ ih => exact fun k' hk' => ih (h k' (htoken k' hk'))
  | call r _ ih => exact fun v hv k' hk' => ih v (h v (hvalue r v hv) k' (htoken k' hk'))

/-- What is known by levels is more than what is known at any level. -/
theorem plainly_of_fitting (r : Rule) (v : r.Result) (h : (fitting n).value r v) :
    (plainly True).value r v := by
  cases r with
  | expression above => exact h.1
  | query =>
    have h : v.Fits (n - 1) := h
    exact fun t ht a ha => (h.clauses.targets t ht a ha).imp_right And.left
  | enclosed | elements => exact h
  | enclosedSource => trivial

/-- What is found without levels holds with them. -/
theorem Parser.Yields.at_levels {P : α → Prop} {p : Parser α} (h : p.Yields (plainly True) P) :
    p.Yields (fitting n) P := by
  have htoken : ∀ k, (fitting n).token k → (plainly True).token k := fun _ => id
  exact fun k hk => (h k hk).of_known htoken plainly_of_fitting

namespace Grammar

open SqlSyntax.Parser

/-! ### Expressions and names -/

theorem operand_fits (above : Level) : (operand above).Yields (fitting n) (Node.ValueFits · n) :=
  yields_operand above

theorem expression_fits : expression.Yields (fitting n) (Node.ValueFits · n) :=
  operand_fits 0

theorem query_fits : query.Yields (fitting n) (Select.Fits · (n - 1)) :=
  yields_query

theorem name_isRead : name.Yields (fitting n) IsName :=
  (name_plain.mono fun _ h => h.1).at_levels

theorem nameList_isRead : nameList.Yields (fitting n) fun names => ∀ s ∈ names, IsName s :=
  yields_parenthesized (yields_commaList_mem name_isRead)

theorem optionalNameList_isRead :
    optionalNameList.Yields (fitting n) fun names => ∀ s ∈ names, IsName s := by
  unfold optionalNameList
  refine yields_bind_any fun paren => yields_ite (fun _ => nameList_isRead) fun _ => ?_
  exact yields_pure (List.forall_mem_nil _)

theorem optionalAlias_isRead :
    optionalAlias.Yields (fitting n) fun label => ∀ a ∈ label, a.IsRead := by
  unfold optionalAlias
  refine yields_bind_any fun explicit => yields_bind_any fun k => ?_
  refine yields_ite (fun _ => ?_) fun _ => yields_pure forall_mem_none
  refine name_isRead.bind fun s hs => optionalNameList_isRead.bind fun columns hcolumns => ?_
  exact yields_pure (forall_mem_some ⟨hs, hcolumns⟩)

theorem dottedName_isRead : dottedName.Yields (fitting n) fun names => ∀ s ∈ names, IsName s :=
  (dottedName_plain.mono fun _ h s hs => (h.2 s hs).1).at_levels

/-- A table that was just read has no name of its own. -/
theorem tableOfNames_isRead (first : Nat) {names : List String} (h : ∀ s ∈ names, IsName s) :
    (tableOfNames first names).Yields K fun t => t.IsRead ∧ t.only = false ∧ t.label = none := by
  unfold tableOfNames
  split
  · next heq => exact yields_pure (TableRef.isRead_of_ofNames? heq h)
  · exact yields_refuseSince _ _

theorem tableName_plain {q : Prop} :
    tableName.Yields (plainly q) fun t => t.IsRead ∧ t.only = false ∧ t.label = none := by
  unfold tableName
  refine yields_bind_any fun first => dottedName_plain.bind fun names hnames => ?_
  exact tableOfNames_isRead first fun s hs => (hnames.2 s hs).1

theorem tableName_isRead :
    tableName.Yields (fitting n) fun t => t.IsRead ∧ t.only = false ∧ t.label = none :=
  tableName_plain.at_levels

/-! ### Items -/

theorem derivedTable_fits (lateral : Bool) {s : Select} (hs : s.TargetsFit (n - 2)) :
    (derivedTable lateral s).Yields (fitting n) (Node.SecondFits · n) := by
  unfold derivedTable
  refine optionalAlias_isRead.bind fun label hlabel => yields_pure ?_
  exact .of_fits (.derivedTable hs hlabel) rfl

theorem enclosedItem_fits (lateral : Bool) :
    (enclosedItem lateral).Yields (fitting n) (Node.SecondFits · n) := by
  unfold enclosedItem
  refine yields_enclosedSourceContent.bind fun e he => ?_
  split
  · exact derivedTable_fits lateral he
  · obtain ⟨m, hlt, he⟩ := he
    exact optionalAlias_isRead.bind fun label hlabel => yields_pure (he.labelled hlt hlabel)

theorem onlyTable_fits : onlyTable.Yields (fitting n) (Node.SecondFits · n) := by
  have hname : onlyTableName.Yields (fitting n) TableRef.IsRead := by
    unfold onlyTableName
    have htable := (tableName_isRead (n := n)).mono fun _ h => h.1
    exact yields_bind_any fun paren =>
      yields_ite (fun _ => yields_parenthesized htable) fun _ => htable
  unfold onlyTable
  refine hname.bind fun t ht => optionalAlias_isRead.bind fun label hlabel => yields_pure ?_
  exact .of_fits (.table ⟨ht.names, ht.whole⟩ hlabel) rfl

theorem namedItem_fits (lateral : Bool) :
    (namedItem lateral).Yields (fitting n) (Node.SecondFits · n) := by
  have hcall (f : TableFunction) : (Node.tableFunction f).SecondFits n :=
    .of_fits (.tableFunction f n) rfl
  unfold namedItem
  refine yields_bind_any fun first => dottedName_isRead.bind fun names hnames => ?_
  refine yields_bind_any fun paren => yields_ite (fun _ => ?_) fun _ => ?_
  · unfold tableFunction
    refine yields_bind_any fun c => yields_bind_any fun ordinality => yields_ite (fun _ => ?_) fun _ => ?_
    · exact yields_bind_any fun _ => yields_bind_any fun label => yields_pure (hcall _)
    · exact yields_bind_any fun label => yields_pure (hcall _)
  · refine yields_ite (fun _ => yields_unexpected _) fun _ => ?_
    refine (tableOfNames_isRead first hnames).bind fun t ht => yields_bind_any fun _ => ?_
    refine optionalAlias_isRead.bind fun label hlabel => yields_pure ?_
    exact .of_fits (.table ⟨ht.1.names, ht.1.whole⟩ hlabel) rfl

/-- An item without joins behind it is a join only in parentheses. -/
theorem sourcePrimary_fits : sourcePrimary.Yields (fitting n) (Node.SecondFits · n) := by
  unfold sourcePrimary
  refine yields_bind_any fun lateral => yields_bind_any fun paren => ?_
  refine yields_ite (fun _ => enclosedItem_fits lateral) fun _ => ?_
  unfold plainItem
  refine yields_ite (fun _ => namedItem_fits true) fun _ => ?_
  exact yields_bind_any fun only => yields_ite (fun _ => onlyTable_fits) fun _ => namedItem_fits false

/-! ### Joins -/

variable {left right : Node}

/-- A join on a condition has one, or columns. -/
theorem joinCondition_fits {kind : JoinKind} (hleft : left.SourceFits n) (hright : right.SecondFits n) :
    (joinCondition { kind := kind, left := left, right := right }).Yields (fitting n)
      fun j => (Node.join j).SourceFits n := by
  obtain ⟨k, hopen, hright⟩ := hright
  unfold joinCondition
  refine yields_bind_any fun on => yields_ite (fun _ => ?_) fun _ => ?_
  · refine expression_fits.bind fun v hv => yields_pure (.join (Nat.le_refl n) hopen ?_ hleft hright)
    exact ⟨forall_mem_some hv, nofun, nofun, nofun, fun h => absurd rfl h, nofun⟩
  · refine yields_bind_any fun found => yields_ite (fun _ => ?_) fun _ => yields_unexpected _
    have hnames : nameList.Yields (fitting n) fun names => names ≠ [] ∧ ∀ s ∈ names, IsName s :=
      yields_parenthesized (yields_commaList name_isRead)
    refine hnames.bind fun columns hcolumns => yields_pure (.join (Nat.le_refl n) hopen ?_ hleft hright)
    exact ⟨nofun, hcolumns.2, nofun, nofun, fun _ => rfl, fun _ _ h => absurd h hcolumns.1⟩

theorem joinedWith_fits (kind : JoinKind) (natural : Bool) (hleft : left.SourceFits n) :
    (joinedWith kind natural left).Yields (fitting n) (Node.SourceFits · n) := by
  unfold joinedWith
  refine yields_bind_any fun _ => sourcePrimary_fits.bind fun right hright => ?_
  cases natural with
  | true =>
    obtain ⟨k, hopen, hright⟩ := hright
    refine yields_pure (.join (Nat.le_refl n) hopen ?_ hleft hright)
    exact ⟨nofun, nofun, nofun, fun _ => ⟨rfl, rfl⟩, fun h => absurd rfl h, nofun⟩
  | false => exact (joinCondition_fits hleft hright).bind fun j hj => yields_pure hj

theorem crossJoin_fits (hleft : left.SourceFits n) :
    (crossJoin left).Yields (fitting n) (Node.SourceFits · n) := by
  unfold crossJoin
  refine yields_bind_any fun _ => sourcePrimary_fits.bind fun right ⟨k, hopen, hright⟩ => ?_
  refine yields_pure (.join (Nat.le_refl n) hopen ?_ hleft hright)
  exact ⟨nofun, nofun, nofun, nofun, fun h => absurd rfl h, fun _ _ _ => rfl⟩

theorem moreJoins_fits (hleft : left.SourceFits n) :
    (moreJoins left).Yields (fitting n) fun o => ∀ i ∈ o, i.SourceFits n := by
  have hsome {p : Parser Node} (hp : p.Yields (fitting n) (Node.SourceFits · n)) :
      (do return some (← p) : Parser (Option Node)).Yields (fitting n)
        fun o => ∀ i ∈ o, i.SourceFits n :=
    hp.bind fun i hi => yields_pure (forall_mem_some hi)
  have hnatural : (naturalJoin left).Yields (fitting n) (Node.SourceFits · n) := by
    unfold naturalJoin
    refine yields_bind_any fun o => ?_
    split
    · exact joinedWith_fits _ true hleft
    · exact yields_unexpected _
  unfold moreJoins
  refine yields_bind_any fun natural => yields_ite (fun _ => hsome hnatural) fun _ => ?_
  refine yields_bind_any fun cross => yields_ite (fun _ => hsome (crossJoin_fits hleft)) fun _ => ?_
  refine yields_bind_any fun o => ?_
  split
  · exact hsome (joinedWith_fits _ false hleft)
  · exact yields_pure forall_mem_none

theorem joins_fit (hleft : left.SourceFits n) :
    (joins left).Yields (fitting n) (Node.SourceFits · n) :=
  yields_iterate hleft fun _ h => moreJoins_fits h

/-- **Items of `FROM` fit in the levels with which they are read.** -/
theorem source_fits : source.Yields (fitting n) (Node.SourceFits · n) := by
  unfold source
  exact sourcePrimary_fits.bind fun i hi => joins_fit hi.fits

theorem sources_fit : sources.Yields (fitting n) fun items => ∀ i ∈ items, i.SourceFits n :=
  yields_commaList_mem source_fits

/-! ### Parentheses -/

/-- A query that goes on has no output columns, or those that it had. -/
theorem continued_targets {s : Select} (hs : s.TargetsFit n) :
    (continued s).Yields K (Select.TargetsFit · n) := by
  have hcombined : (combinationOf s).Yields K (Select.TargetsFit · n) := by
    refine yields_iterate hs fun left _ => ?_
    unfold moreCombined
    refine yields_bind_any fun k => ?_
    split
    · exact yields_pure forall_mem_none
    · unfold combinedWith
      simp only [bind_assoc]
      refine yields_bind_any fun _ => yields_bind_any fun all => yields_bind_any fun right => ?_
      exact yields_pure (forall_mem_some (List.forall_mem_nil _))
  unfold continued
  refine hcombined.bind fun s hs => (tail_targets s).mono fun s' heq => ?_
  rw [Select.TargetsFit, heq]
  exact hs

/-- What parentheses among the items hold fits in one level more. -/
theorem enclosedSource_fits :
    enclosedSource.Yields (fitting n) (Enclosed.SourceFits · (n + 1)) := by
  have hitem {p : Parser Node} (hp : p.Yields (fitting n) (Node.SourceFits · n)) :
      (do return .item (← p) : Parser Enclosed).Yields (fitting n)
        (Enclosed.SourceFits · (n + 1)) :=
    hp.bind fun i hi => yields_pure ⟨n, Nat.lt_succ_self n, hi⟩
  unfold enclosedSource enclosedSourceBody
  refine yields_parenthesized (yields_bind_any fun k => yields_ite (fun _ => ?_) fun _ => ?_)
  · exact query_fits.bind fun s hs => yields_pure hs.clauses.targets
  · refine yields_ite (fun _ => ?_) fun _ => hitem source_fits
    refine yields_enclosedSourceContent.bind fun e he => ?_
    cases e with
    | item i =>
      obtain ⟨m, hlt, he⟩ := he
      unfold afterEnclosedSource
      refine optionalAlias_isRead.bind fun label hlabel => ?_
      exact hitem (joins_fit (he.labelled hlt hlabel).fits)
    | query s =>
      have he : s.TargetsFit (n - 2) := he
      unfold afterEnclosedSource
      refine yields_bind_any fun k => yields_ite (fun _ => ?_) fun _ => ?_
      · refine (continued_targets he).bind fun s hs => yields_pure ?_
        exact hs.mono (Nat.sub_le_sub_right (Nat.le_succ n) 2)
      · exact (derivedTable_fits false he).bind fun i hi => hitem (joins_fit hi.fits)

end Grammar
end SqlSyntax
