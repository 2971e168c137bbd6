import SqlSyntax.Proofs.Expression.Written
import SqlSyntax.Script

/-!
# Selections of plain expressions

A query whose output columns have no labels, with no clauses behind them.

## Main definitions

* `Select.ofColumns` — the query of some output columns.
* `Node.IsColumn` — a plain expression, or all columns.

## Main results

* `reads_columns` — **such a query is read back as a statement.**
* `written_columns` — it is read as the tokens that it is written as.
-/

namespace SqlSyntax

open Grammar

variable {depth : Nat} {rest ts : List TokenKind} {n : Node} {es : List Node}
variable {R : (r : Rule) → List TokenKind → r.Result → List TokenKind → Prop}

/-- The query of some output columns without labels. -/
def Select.ofColumns (es : List Node) : Select where
  targets := es.map fun e => ⟨none, some e⟩

/-- An output column: a plain expression, or all columns. -/
def Node.IsColumn (n : Node) : Prop :=
  n = .column [.star] ∨ n.Plain

/-! ### Writing -/

theorem pieces_columns (hne : es ≠ []) :
    (Node.select (Select.ofColumns es)).pieces
      = .word .SELECT :: .gap :: commas (es.map Node.pieces) := by
  have htargets : targetsPieces (es.map fun e => ⟨none, some e⟩) = es.map Node.pieces := by
    clear hne
    induction es with
    | nil => rfl
    | cons e es ih =>
      rw [List.map_cons, targetsPieces, ih]
      rfl
  show (Select.ofColumns es).pieces = _
  rw [Select.pieces_eq]
  simp [Select.ofColumns, htargets, hne, withPieces, distinctPieces, keysPieces, nodesPieces, listClause,
    optionalClause, operand?, windowsPieces, sortKeysPieces, limitPieces]

theorem Node.IsColumn.written (h : n.IsColumn) : Written n.pieces := by
  rcases h with rfl | h
  · exact written_star
  · exact h.written

/-- A query of output columns is read as the tokens that it is written as. -/
theorem written_columns (hne : es ≠ []) (h : ∀ e ∈ es, e.IsColumn) :
    Written (Node.select (Select.ofColumns es)).pieces := by
  rw [pieces_columns hne]
  refine (written_commas ?_).gap.word .SELECT
  exact List.forall_mem_map.mpr fun e he => (h e he).written

namespace Grammar

open SqlSyntax.Parser (bind_eq Steps)

/-! ### Reading -/

/-- A simple query that starts with `SELECT` is read behind it. -/
theorem reads_simpleQuery_select {s : Select} (h : selection.ReadsWith R ts s ts') :
    simpleQuery.ReadsWith R (.keyword .SELECT :: ts) s ts' :=
  h

/-- No label stands behind a list. -/
theorem isBareLabel_of_endsList {k : TokenKind} (h : endsList k = true) : isBareLabel k = false := by
  unfold endsList continuesQuery at h
  split at h
  · rfl
  · rfl
  · split at h <;> first | rfl | cases h

theorem reads_optionalLabel_none (h : EndsItem rest) :
    optionalLabel.ReadsWith R (settle rest) none (settle rest) := by
  have has : firstOf (settle rest) ≠ .keyword .AS := h.ne rfl nofun
  have hlabel : isBareLabel (firstOf (settle rest)) = false := by
    obtain h | h := h
    · rw [h]
      rfl
    · exact isBareLabel_of_endsList h
  simp [optionalLabel, has, hlabel]

/-- The first token of an output column. -/
theorem starts_column (h : n.IsColumn) (hrest : Follows 0 rest) :
    firstOf (settle (n.kinds ++ rest)) = .star
      ∨ (firstOf (settle (n.kinds ++ rest))).opensOperand = true := by
  rcases h with rfl | h
  · exact .inl rfl
  · exact .inr (h.leads.starts (hrest.mono (Nat.zero_le _))).1

/-- A star stands for all columns. -/
theorem reads_starColumn :
    outputColumn.ReadsWith R (settle ((Node.column [.star]).kinds ++ rest))
      ⟨none, some (.column [.star])⟩ (settle rest) := by
  have hkinds : (Node.column [.star]).kinds = [.star] := rfl
  rw [hkinds, List.singleton_append, settle_cons, before_eq rfl]
  simp [outputColumn]

/-- An output column is read back if its expression is. -/
theorem reads_column (h : n.IsColumn)
    (hread : n.Plain → ∀ rest, Follows 0 rest →
      expression.ReadsWith R (settle (n.kinds ++ rest)) n (settle rest))
    (hrest : EndsItem rest) :
    outputColumn.ReadsWith R (settle (n.kinds ++ rest)) ⟨none, some n⟩ (settle rest) := by
  rcases h with rfl | h
  · exact reads_starColumn
  · have hstar : firstOf (settle (n.kinds ++ rest)) ≠ .star :=
      opensOperand_ne (h.leads.starts hrest.follows).1 _ rfl
    simp only [outputColumn, bind_eq, reads_accept_bind, hstar, if_false, Bool.false_eq_true]
    refine Parser.readsWith_bind (hread h rest hrest.follows) ?_
    exact Parser.readsWith_bind (reads_optionalLabel_none hrest) ⟨rfl, rfl⟩

theorem endsOutput_of_opensOperand {k : TokenKind} (h : k.opensOperand = true) :
    endsOutput k = false := by
  unfold endsOutput continuesQuery
  repeat' split
  all_goals first | rfl | exact absurd h (by decide)

/-- Output columns are read back one after the other. -/
theorem reads_columnList {p : List TokenKind → Prop} (hok : ∀ rest, p (.comma :: rest))
    (hne : es ≠ []) (h : ∀ n ∈ es, ∀ rest, p rest →
      outputColumn.ReadsWith R (settle (n.kinds ++ rest)) ⟨none, some n⟩ (settle rest))
    (hrest : p rest) (hcomma : firstOf (settle rest) ≠ .comma) :
    (commaList outputColumn).ReadsWith R (settle (commaKinds (es.map Node.kinds) ++ rest))
      (es.map fun e => ⟨none, some e⟩) (settle rest) := by
  obtain ⟨e, es, rfl⟩ := List.exists_cons_of_ne_nil hne
  let write (t : Target) : List TokenKind := t.value.elim [] Node.kinds
  have hitem : ∀ t ∈ (e :: es).map (fun e => (⟨none, some e⟩ : Target)), ∀ rest, p rest →
      outputColumn.ReadsWith R (settle (write t ++ rest)) t (settle rest) := by
    intro t ht rest hrest
    obtain ⟨n, hn, rfl⟩ := List.mem_map.mp ht
    exact h n hn rest hrest
  have hlist := reads_commaList hok _ _ hitem hrest hcomma
  rw [List.flatMap_map] at hlist
  rw [List.map_cons, commaKinds, List.flatMap_map, List.append_assoc]
  exact hlist

/-- A query with output columns and items of `FROM` is read behind its first word, where no
other clause follows. -/
theorem reads_selection {items : List Node} (hne : es ≠ []) (h : ∀ e ∈ es, e.IsColumn)
    (hcolumns : (commaList outputColumn).ReadsWith R
      (settle (commaKinds (es.map Node.kinds) ++ rest)) (es.map fun e => ⟨none, some e⟩)
      (settle rest))
    (hstarts : es = [.column [.star]] ∨ Follows 0 rest)
    (hsources : (listAfter .FROM sources).ReadsWith R (settle rest) items ts)
    (hends : endsList (firstOf ts) = true) :
    selection.ReadsWith R (settle (commaKinds (es.map Node.kinds) ++ rest))
      { Select.ofColumns es with sources := items } ts := by
  have hfirst : firstOf (settle (commaKinds (es.map Node.kinds) ++ rest)) = .star
      ∨ (firstOf (settle (commaKinds (es.map Node.kinds) ++ rest))).opensOperand = true := by
    rcases hstarts with rfl | hfollows
    · exact .inl rfl
    · obtain ⟨e, es, rfl⟩ := List.exists_cons_of_ne_nil hne
      rw [List.map_cons, commaKinds, List.append_assoc]
      exact starts_column (h e List.mem_cons_self) (follows_commas hfollows)
  generalize settle (commaKinds (es.map Node.kinds) ++ rest) = ts₀ at hcolumns hfirst ⊢
  have hopens : endsOutput (firstOf ts₀) = false ∧ firstOf ts₀ ≠ .keyword .DISTINCT
      ∧ firstOf ts₀ ≠ .keyword .ALL := by
    rcases hfirst with hstar | hopens
    · rw [hstar]
      decide
    · exact ⟨endsOutput_of_opensOperand hopens, opensOperand_ne hopens _ rfl,
        opensOperand_ne hopens _ rfl⟩
  have hdistinct : optionalDistinct.ReadsWith R ts₀ none ts₀ := by
    simp [optionalDistinct, hopens]
  have hcolumns : outputColumns.ReadsWith R ts₀ (es.map fun e => ⟨none, some e⟩) (settle rest) := by
    simpa [outputColumns, hopens] using hcolumns
  have hne {w : Keyword} (hw : endsList (.keyword w) = false) : firstOf ts ≠ .keyword w := by
    intro heq
    rw [heq, hw] at hends
    cases hends
  refine Parser.readsWith_bind hdistinct ?_
  refine Parser.readsWith_bind hcolumns ?_
  refine Parser.readsWith_bind hsources ?_
  refine Parser.readsWith_bind (reads_after_none (hne rfl)) ?_
  refine Parser.readsWith_bind (reads_listAfter_nil (hne rfl)) ?_
  refine Parser.readsWith_bind (reads_after_none (hne rfl)) ?_
  exact Parser.readsWith_bind (reads_listAfter_nil (hne rfl)) ⟨rfl, rfl⟩

/-- Where nothing continues a query, no clause and no combination follows it. -/
theorem reads_moreClauses_none (s : Select) (h : continuesQuery (firstOf ts) = false) :
    (moreClauses s).ReadsWith R ts none ts := by
  simp only [moreClauses, bind_eq, reads_index_bind, reads_kind_bind]
  intro n
  split <;> first
    | exact ⟨rfl, rfl⟩
    | (next hword =>
        unfold TokenKind.keyword? at hword
        split at hword
        · next heq =>
          cases hword
          rw [heq] at h
          cases h
        · cases hword)

theorem reads_moreCombined_none (s : Select) (h : (firstOf ts).keyword?.bind SetOp.ofWord? = none) :
    (moreCombined s).ReadsWith R ts none ts := by
  simp [moreCombined, h]

theorem reads_tail_none (s : Select) (hties : hasUnorderedTies s = false)
    (h : continuesQuery (firstOf ts) = false) : (tail s).ReadsWith R ts s ts := by
  have hword : firstOf ts ≠ .keyword .ORDER := by
    intro heq
    rw [heq] at h
    cases h
  have horder : (queryOrder s).ReadsWith R ts s ts := by
    simp [queryOrder, hword]
  refine Parser.readsWith_bind horder ?_
  refine Parser.readsWith_bind (Steps.last (reads_moreClauses_none s h)).reads ?_
  rw [hties]
  exact ⟨rfl, rfl⟩

/-- A query of output columns is read back as a statement, and nothing is left. -/
theorem reads_columns (hne : es ≠ []) (h : ∀ e ∈ es, e.IsColumn) :
    wholeStatement.Reads depth (settle (Node.select (Select.ofColumns es)).kinds)
      (.select (Select.ofColumns es)) [] := by
  have hkinds : (Node.select (Select.ofColumns es)).kinds
      = .keyword .SELECT :: commaKinds (es.map Node.kinds) := by
    rw [Node.kinds, pieces_columns hne, kindsOf_cons, kindsOf_cons, kindsOf_commas, List.map_map]
    rfl
  rw [hkinds, settle_cons, before_eq rfl]
  generalize hts : settle (commaKinds (es.map Node.kinds)) = ts
  have hsimple (d : Nat) : simpleQuery.Reads d (.keyword .SELECT :: ts) (Select.ofColumns es) [] := by
    have hcolumns := reads_columnList (R := Rule.Reads d) endsItem_comma hne
      (fun n hn _ hrest => reads_column (h n hn)
        (fun hplain _ hfollows => hplain.leads.reads_expression hfollows) hrest)
      endsList_nil.item (by decide)
    have hselection := reads_selection hne h hcolumns (.inr follows_nil)
      (reads_listAfter_nil (by decide)) rfl
    rwa [List.append_nil, hts] at hselection
  have hquery : query.Reads depth (.keyword .SELECT :: ts) (Select.ofColumns es) [] := by
    refine Parser.Reads.call fun d _ => ?_
    have hcombined : combination.Reads d (.keyword .SELECT :: ts) (Select.ofColumns es) [] :=
      Parser.readsWith_bind (hsimple d) (Steps.last (reads_moreCombined_none _ rfl)).reads
    change (combination.bind tail).Reads d _ _ _
    exact Parser.readsWith_bind hcombined (reads_tail_none _ rfl rfl)
  have hstatement : statement.Reads depth (.keyword .SELECT :: ts)
      (.select (Select.ofColumns es)) [] := by
    change (query.bind fun s => Parser.done (Node.select s)).Reads depth _ _ _
    exact Parser.readsWith_bind hquery ⟨rfl, rfl⟩
  exact Parser.readsWith_bind hstatement ⟨rfl, rfl⟩

end Grammar

end SqlSyntax
