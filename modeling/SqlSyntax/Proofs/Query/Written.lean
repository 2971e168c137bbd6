import SqlSyntax.Proofs.Expression.Written
import SqlSyntax.Proofs.Query.Elementary

/-!
# Queries of constants and columns are written as their tokens

A gap stands in front of every clause of a query, and its operands stand between gaps or in
parentheses.  So no two of its tokens run into each other.

## Main results

* `trails_label`, `TableRef.IsRead.written` — names of tables and their columns.
* `trails_tail` — the clauses behind a query.
* `Elementary.written` — **a query of constants and columns is read as the tokens that it is
  written as.**
-/

namespace SqlSyntax

variable {n : Nat} {s : Select} {v : Node} {ps : List Piece}

/-! ### Names of tables -/

theorem written_nameList {names : List String} (h : ∀ s ∈ names, IsName s) : Written (nameList names) :=
  written_commas (List.forall_mem_map.mpr fun s hs => written_name (h s hs))

theorem trails_nameListIfAny {names : List String} (h : ∀ s ∈ names, IsName s) :
    Trails (nameListIfAny [] names) := by
  unfold nameListIfAny
  split
  · exact trails_nil
  · exact (written_nameList h).parens

theorem trails_label {label : Option Alias} (h : ∀ a ∈ label, a.IsRead) :
    Trails (labelPieces label) := by
  refine trails_optionalClause _ fun ps hps => ?_
  obtain ⟨a, ha, rfl⟩ := Option.map_eq_some_iff.mp hps
  exact (written_name (h a ha).name).append (trails_nameListIfAny (h a ha).columns)

theorem TableRef.IsRead.written {t : TableRef} (h : t.IsRead) (hlabel : ∀ a ∈ t.label, a.IsRead) :
    Written t.pieces := by
  rw [TableRef.pieces, List.append_assoc]
  exact ((written_dotted h.names).append (trails_label hlabel)).wordsIf _ _

/-! ### Clauses -/

theorem Node.IsAtom.written (h : v.IsAtom) (hv : v.PlainIf True) : Written v.pieces :=
  (h.plain hv).written

theorem trails_limits {limit offset : Option Node} (style : LimitStyle) (all : Bool)
    (hlimit : ∀ v ∈ limit, Written v.pieces) (hoffset : ∀ v ∈ offset, Written v.pieces) :
    Trails (limitPieces style all (operand? limit) (operand? offset)) := by
  have hoffset : Trails (optionalClause [.OFFSET] ((operand? offset).map Operand.pieces)) := by
    cases offset with
    | none => exact trails_nil
    | some v => exact (hoffset v rfl).clause _
  unfold limitPieces
  split
  · refine hoffset.append ?_
    cases limit with
    | none => exact trails_nil
    | some v =>
      have hv : Written ((Operand.mk v.level v.pieces).wrapIf (v.level < Level.primary)) := by
        unfold Operand.wrapIf
        split
        · exact (hlimit v rfl).parens.written
        · exact hlimit v rfl
      exact (hv.clause _).append (trails_suffixWords _)
  · refine Trails.append ?_ hoffset
    cases limit with
    | none => exact trails_nil
    | some v =>
      refine Written.clause ?_ _
      split
      · exact written_word .ALL
      · exact hlimit v rfl

theorem written_locking {l : Locking}
    (h : ∀ t ∈ l.tables, t.IsRead ∧ t.only = false ∧ t.label = none) : Written l.pieces := by
  have htables : ∀ item ∈ l.tables.map TableRef.pieces, Written item := by
    refine List.forall_mem_map.mpr fun t ht => ?_
    obtain ⟨hread, -, hlabel⟩ := h t ht
    exact hread.written (hlabel ▸ nofun)
  exact ((written_words _).append (trails_listClause _ htables)).append (trails_suffixWords _)

theorem trails_locks {locks : List Locking}
    (h : ∀ l ∈ locks, ∀ t ∈ l.tables, t.IsRead ∧ t.only = false ∧ t.label = none) :
    Trails (locks.flatMap fun l => .gap :: l.pieces) := by
  induction locks with
  | nil => exact trails_nil
  | cons l locks ih =>
    rw [List.forall_mem_cons] at h
    rw [List.flatMap_cons]
    exact (written_locking h.1).gap.append (ih h.2)

/-- The clauses behind a query are read as their tokens. -/
theorem trails_tail (h : s.AtomicTail) (hfits : s.ClausesFit n) :
    Trails (listClause [.ORDER, .BY] (sortKeysPieces s.order)
      ++ limitPieces s.limitStyle (s.limit.any isAllRows) (operand? s.limit) (operand? s.offset)
      ++ s.locks.flatMap (fun l => .gap :: l.pieces)) := by
  have hkeys : ∀ item ∈ sortKeysPieces s.order, Written item := by
    rw [sortKeysPieces_eq]
    refine List.forall_mem_map.mpr fun k hk => ?_
    exact written_sortKey ((h.order k hk).written (hfits.order k hk).1) (hfits.order k hk).2
  have hlimits := trails_limits s.limitStyle (s.limit.any isAllRows)
    (fun v hv => Node.IsAtom.written (.inl (h.limit v hv)) (hfits.limit v hv))
    (fun v hv => Node.IsAtom.written (.inl (h.offset v hv)) (hfits.offset v hv))
  exact ((trails_listClause _ hkeys).append hlimits).append (trails_locks hfits.locks)

/-! ### Queries -/

theorem written_parensIf (h : Written ps) (wrap : Bool) : Written (parensIf wrap ps) := by
  cases wrap with
  | false => exact h
  | true => exact h.parens.written

theorem written_combined {qs : List Piece} (op : SetOp) (all : Bool) (hleft : Written ps)
    (hright : Written qs) : Written (combinedPieces op all ps qs) := by
  have hall : Trails (suffixIf all [.ALL]) := by
    unfold suffixIf
    split
    · exact trails_suffixWords _
    · exact trails_nil
  exact ((hleft.append (written_words op.words).gap).append hall).append hright.gap

/-- A common table expression is read as its tokens if its query is. -/
theorem written_cte {c : Cte} (hname : IsName c.name) (hcolumns : ∀ s ∈ c.columns, IsName s)
    (hquery : Written c.query.pieces) : Written c.pieces := by
  obtain ⟨name, columns, m, query⟩ := c
  rw [Cte.pieces]
  exact ((written_name hname).append (trails_nameListIfAny hcolumns)).append
    (hquery.parens.written.clause _)

theorem written_with {w : With} (h : ∀ c ∈ w.ctes, Written c.pieces) : Written w.pieces := by
  obtain ⟨items, recursive⟩ := w
  have hitems : Written (commas (ctesPieces items)) := by
    rw [ctesPieces_eq]
    exact written_commas (List.forall_mem_map.mpr h)
  rw [With.pieces]
  exact (hitems.wordsIf recursive [.RECURSIVE]).gap.word .WITH

/-- The common table expressions in front of a query are read as their tokens. -/
theorem written_behindWith (hctes : ∀ w ∈ s.ctes, ∀ c ∈ w.ctes, Written c.pieces)
    (h : Written ps) : Written (withPieces s.ctes ++ ps) := by
  cases hw : s.ctes with
  | none => exact h
  | some w =>
    rw [withPieces, List.append_assoc]
    exact (written_with (hctes w hw)).append h.gap

/-- **A query of constants and columns is read as the tokens that it is written as.** -/
theorem Select.Elementary.written (h : s.Elementary) (hfits : s.Fits n)
    (hsound : (Node.select s).Sound) : Written s.pieces := by
  induction h generalizing n with
  | columns hne h =>
    have hvalues := (columns_fit hne h hfits.clauses).1
    have hpieces := pieces_columns hne
    rw [Node.select_pieces] at hpieces
    rw [hpieces]
    refine (written_commas ?_).gap.word .SELECT
    exact List.forall_mem_map.mpr fun e he => (h e he).written (hvalues e he).1
  | rows hne h =>
    have hvalues := (rows_fit hne h hfits.clauses (Node.sound_select.mp hsound).1.filled).1
    rw [pieces_rows hne]
    refine (written_commas (List.forall_mem_map.mpr fun r hr => ?_)).gap.word .VALUES
    exact (written_nodes fun v hv => (h r hr v hv).written (hvalues r hr v hv).1).parens.written
  | @combined op l r _ all _ _ ihl ihr =>
    have hbelow := (Node.sound_select.mp hsound).2
    obtain ⟨-, -, left, right⟩ := hfits
    rw [pieces_combined]
    exact written_combined op all
      (written_parensIf (ihl (left l rfl) (hbelow.left l rfl)) _)
      (written_parensIf (ihr (right r rfl) (hbelow.right r rfl)) _)
  | @clauses s _ htail _ hqueries _ ihcore ihctes =>
    have hclauses := hfits.clauses
    have hcore := ihcore hfits.core (sound_core hsound)
    have hctes : ∀ w ∈ s.ctes, ∀ c ∈ w.ctes, Written c.pieces := by
      intro w hw c hc
      obtain ⟨q, hq⟩ := hqueries w hw c hc
      obtain ⟨hname, hcolumns⟩ := (hclauses.ctes w hw).2 c hc
      obtain ⟨-, queries, -, -⟩ := hfits
      have hquery : Written c.query.pieces := by
        rw [hq, Node.select_pieces]
        exact ihctes w hw c hc q hq (queries w hw c hc q hq) (sound_cteQuery hsound hw hc hq)
      exact written_cte hname hcolumns hquery
    rw [pieces_select, List.append_assoc, List.append_assoc, List.append_assoc,
      ← List.append_assoc (listClause _ _)]
    exact written_behindWith hctes (hcore.append (trails_tail htail hclauses))

end SqlSyntax
