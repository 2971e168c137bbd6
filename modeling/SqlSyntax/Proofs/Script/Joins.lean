import SqlSyntax.Proofs.Script.Fitting
import SqlSyntax.Proofs.Source.Checks
import SqlSyntax.Proofs.Source.Written

/-!
# Joins of a script are written with the right parentheses

The parentheses around items of `FROM` are gone once they are read, but for those around a join on
the right and a join with a name.  What is written has these, so that the text is read as the
same joins.

## Main definitions

* `Select.allOf` — a query of all columns of some items.

## Main results

* `parse_text_of_joined` — **joins are read back**, with all their names.
-/

namespace SqlSyntax

open Grammar

variable {n : Nat} {source : List Char} {items : List Node} {rest : List TokenKind}

/-- All columns of some items of `FROM`. -/
def Select.allOf (items : List Node) : Select where
  targets := [⟨none, some (.column [.star])⟩]
  sources := items

/-- Whether a query is one of all columns of items that pass a test. -/
def Select.isAllOf (test : Node → Bool) : Select → Bool
  | ⟨none, [⟨none, some (.column [.star])⟩], items, none, [], none, [], [], [], none, none,
      .unlimited, [], none, .none, false, none, none⟩ => items.all test
  | _ => false

theorem Select.eq_allOf_of_isAllOf {test : Node → Bool} {s : Select} (h : s.isAllOf test = true) :
    ∃ items, s = .allOf items ∧ ∀ i ∈ items, test i = true := by
  unfold isAllOf at h
  split at h
  · exact ⟨_, rfl, List.all_eq_true.mp h⟩
  · cases h

theorem pieces_allOf (items : List Node) : (Select.allOf items).pieces
    = .word .SELECT :: .gap :: .mark .star :: listClause [.FROM] (items.map Node.pieces) := by
  rw [Select.pieces_eq]
  simp [Select.allOf, withPieces, distinctPieces, keysPieces, targetsPieces, Target.pieces, operand?,
    listClause, sortKeysPieces, limitPieces, optionalClause, windowsPieces, nodesPieces_eq, Node.column_pieces,
    columnPieces, commas, separated]

/-- The tokens of a list of items behind its word. -/
def sourcesKinds (items : List Node) : List TokenKind :=
  kindsOf (listClause [.FROM] (items.map Node.pieces))

theorem kinds_allOf (items : List Node) :
    (Select.allOf items).kinds = .keyword .SELECT :: .star :: sourcesKinds items := by
  rw [Select.kinds, pieces_allOf]
  rfl

namespace Grammar

/-- The items of `FROM` are read back. -/
theorem reads_sources (h : ∀ i ∈ items, i.SourceReads n) (hends : EndsList rest) :
    (listAfter .FROM sources).ReadsWith (Rule.Within n) (settle (sourcesKinds items ++ rest)) items
      (settle rest) := by
  cases items with
  | nil => exact reads_listAfter_nil (hends.ne rfl)
  | cons i items =>
    have hkinds : sourcesKinds (i :: items) ++ rest
        = .keyword .FROM :: (i.kinds ++ (items.flatMap (fun i => .comma :: i.kinds) ++ rest)) := by
      simp [sourcesKinds, listClause, commaKinds, List.flatMap_map, Node.kinds]
    have hlist := reads_commaList endsItem_comma i items (fun i hi _ hrest => (h i hi).reads hrest)
      hends.item (hends.ne rfl)
    rw [hkinds, settle_cons, before_eq rfl]
    exact reads_listAfter hlist

/-- A query of all columns is read back with its items. -/
theorem reads_allOf (h : ∀ i ∈ items, i.SourceReads n) (hends : EndsList rest) :
    simpleQuery.ReadsWith (Rule.Within n) (settle ((Select.allOf items).kinds ++ rest))
      (.allOf items) (settle rest) := by
  have hcomma : firstOf (settle (sourcesKinds items ++ rest)) ≠ .comma := by
    cases items with
    | nil => exact hends.ne rfl
    | cons i items => nofun
  have hcolumns : (commaList outputColumn).ReadsWith (Rule.Within n)
      (settle (commaKinds ([Node.column [.star]].map Node.kinds) ++ (sourcesKinds items ++ rest)))
      ([Node.column [.star]].map fun e => ⟨none, some e⟩) (settle (sourcesKinds items ++ rest)) := by
    refine reads_columnList (p := fun _ => True) (fun _ => trivial) (List.cons_ne_nil _ _) ?_ trivial
      hcomma
    refine List.forall_mem_singleton.mpr fun rest _ => ?_
    exact reads_starColumn
  have hkinds : (Select.allOf items).kinds ++ rest = .keyword .SELECT
      :: (commaKinds ([Node.column [.star]].map Node.kinds) ++ (sourcesKinds items ++ rest)) := by
    rw [kinds_allOf]
    rfl
  have hselection := reads_selection (List.cons_ne_nil _ _)
    (List.forall_mem_singleton.mpr (.inl rfl)) hcolumns (.inl rfl) (reads_sources h hends) hends
  rw [hkinds, settle_cons, before_eq rfl]
  exact reads_simpleQuery_select hselection

end Grammar

/-- A query of all columns is read back if its items are. -/
theorem Select.readsBack_allOf (hn : 0 < n) (hfits : (allOf items).Fits n)
    (hsound : (Node.select (allOf items)).Sound) (h : ∀ i ∈ items, i.Joined) :
    (allOf items).ReadsBack n := by
  have hitems : ∀ i ∈ items, i.SourceReads n := fun i hi =>
    (h i hi).sourceReads (hfits.clauses.sources i hi) ((Node.sound_select.mp hsound).2.sources i hi)
  exact readsBack_of_core rfl hfits hsound hn fun _ _ =>
    readsFrom_simple fun _ hends => reads_allOf hitems hends

/-- **Joins are read back** from what they are written as, whichever items they join and whatever
names they have. -/
theorem parse_text_of_joined (hclean : (parse .postgres source).isClean = true)
    (hmem : .select (.allOf items) ∈ (parse .postgres source).statements.map RawStatement.node)
    (h : ∀ i ∈ items, i.Joined) :
    (parse .postgres (Node.select (.allOf items)).text.toList).IsOnly (.select (.allOf items)) := by
  obtain ⟨hfits, hone, hsound⟩ := parse_fits hclean hmem
  have hwritten : Written (Select.allOf items).pieces := by
    have hitems : ∀ item ∈ items.map Node.pieces, Written item :=
      List.forall_mem_map.mpr fun i hi => (h i hi).written (hfits.clauses.sources i hi)
        ((Node.sound_select.mp hsound).2.sources i hi)
    rw [pieces_allOf]
    exact (written_star.append (trails_listClause _ hitems)).gap.word .SELECT
  exact parse_text_of_readsBack hwritten (Select.readsBack_allOf (by decide) hfits hsound h)
    fun hs => Select.readsBack_allOf (by decide) (hone hs) hsound h

/-- The parentheses around the first join and around a single table are gone, and those around the
others stay. -/
theorem parse_text_of_joined_nested :
    let source := "SELECT * FROM ((a.t AS x (c)) JOIN ONLY u ON TRUE) CROSS JOIN (SELECT 1) AS y, ".toList
      ++ "v NATURAL FULL OUTER JOIN ((t INNER JOIN (u) USING (a, b)) LEFT JOIN ".toList
      ++ "(v CROSS JOIN w) ON TRUE) z".toList
    ∃ items, .select (.allOf items) ∈ (parse .postgres source).statements.map RawStatement.node ∧
      (parse .postgres (Node.select (.allOf items)).text.toList).IsOnly (.select (.allOf items)) := by
  intro source
  obtain ⟨hclean, hread⟩ : (parse .postgres source).isClean = true ∧
      ((parse .postgres source).statements.head?.map RawStatement.node).any
        (Node.isQueryWith (Select.isAllOf (Node.isJoined 4))) = true := by
    decide +kernel
  obtain ⟨s, hmem, htest⟩ := exists_query_of_isQueryWith hread
  obtain ⟨items, rfl, hitems⟩ := Select.eq_allOf_of_isAllOf htest
  exact ⟨items, hmem,
    parse_text_of_joined hclean hmem fun i hi => Node.joined_of_isJoined (hitems i hi)⟩

end SqlSyntax
