import SqlSyntax.Proofs.Query.Clauses

/-!
# Queries of constants and columns

Selections and rows of constants and columns, combined to any depth, with clauses in front of
them and behind them.

## Main definitions

* `Select.core` — a query without its clauses.
* `Select.Elementary` — the queries that are made of constants and columns.

## Main results

* `kinds_select` — **a query is written as its core between its clauses.**
* `kinds_combined` — a combination is written as its operands, in parentheses where needed.
* `Elementary.pos` — such a query needs a level.
-/

namespace SqlSyntax

open Grammar

variable {n : Nat} {s l r : Select} {es : List Node} {op : SetOp}

/-- A name that is no keyword. -/
def IsIdentifier (s : String) : Prop :=
  ∀ w : Keyword, w.spelling ≠ s

theorem IsIdentifier.nameKind_eq {s : String} (h : IsIdentifier s) : nameKind s = .name s :=
  (nameKind_cases s).resolve_right fun ⟨w, _, _, hw⟩ => h w hw

/-! ### Queries -/

/-- The query without its clauses. -/
def Select.core (s : Select) : Select :=
  ({ s with ctes := none } : Select).withoutTail

/-- The queries that are made of constants and columns.  Their common table expressions are
such queries too. -/
inductive Select.Elementary : Select → Prop
  | columns {es : List Node} (hne : es ≠ []) (h : ∀ e ∈ es, e.IsAtom) : Elementary (.ofColumns es)
  | rows {rows : List (List Node)} (hne : rows ≠ []) (h : ∀ r ∈ rows, ∀ v ∈ r, v.IsAtom) :
    Elementary { rows := rows }
  | combined {op : SetOp} {l r : Select} (hop : op ≠ .none) (all : Bool) (hl : Elementary l)
    (hr : Elementary r) : Elementary (.combined op all l r)
  | clauses {s : Select} (hcore : Elementary s.core) (htail : s.AtomicTail)
    (hnames : ∀ w ∈ s.ctes, ∀ c ∈ w.ctes, IsIdentifier c.name)
    (hqueries : ∀ w ∈ s.ctes, ∀ c ∈ w.ctes, ∃ q, c.query = .select q)
    (hctes : ∀ w ∈ s.ctes, ∀ c ∈ w.ctes, ∀ q, c.query = .select q → Elementary q) : Elementary s

/-- The core of a query fits where the query does. -/
theorem Select.Fits.core (h : s.Fits n) : s.core.Fits n := by
  obtain ⟨clauses, -, left, right⟩ := h
  exact .mk ⟨clauses.targets, clauses.rows, clauses.sources, nofun, nofun, nofun, nofun, nofun⟩ nofun
    left right

/-- The core of a query has its shape. -/
theorem sound_core (h : (Node.select s).Sound) : (Node.select s.core).Sound := by
  obtain ⟨hshape, hbelow⟩ := Node.sound_select.mp h
  refine Node.sound_select.mpr ⟨⟨⟨hshape.combined, hshape.alone, hshape.bare, hshape.filled,
    hshape.even, ?_⟩, nofun⟩, ?_⟩
  · simp [Select.core, Select.withoutTail]
  · exact { hbelow with ctes := nofun, order := nofun, offset := nofun, limit := nofun }

/-- The queries in front of a query have their shape. -/
theorem sound_cteQuery (h : (Node.select s).Sound) {w : With} (hw : s.ctes = some w) {c : Cte}
    (hc : c ∈ w.ctes) {q : Select} (hq : c.query = .select q) : (Node.select q).Sound := by
  have hctes : (Node.ctes w).Sound := (Node.sound_select.mp h).2.ctes w hw
  have hcte : (Node.cte c).Sound := (Node.sound_iff.mp hctes).2 _ (List.mem_map_of_mem hc)
  exact (Node.sound_iff.mp hcte).2 _ (hq ▸ List.mem_singleton_self _)

/-- Constants and columns that are selected fit, and there is a level for them. -/
theorem columns_fit (hne : es ≠ []) (h : ∀ e ∈ es, e.IsAtom)
    (hfits : (Select.ofColumns es).ClausesFit n) : (∀ e ∈ es, e.ValueFits n) ∧ 0 < n := by
  have hvalues : ∀ e ∈ es, e.ValueFits n := fun e he =>
    (hfits.targets ⟨none, some e⟩ (List.mem_map_of_mem he) e rfl).resolve_left (h e he).ne_star
  obtain ⟨e, he⟩ := List.exists_mem_of_ne_nil es hne
  exact ⟨hvalues, (hvalues e he).2⟩

/-- A selection fits if its output columns do. -/
theorem Select.fits_ofColumns (h : (Select.ofColumns es).TargetsFit n) : (Select.ofColumns es).Fits n :=
  .mk ⟨h, nofun, nofun, nofun, nofun, nofun, nofun, nofun⟩ nofun nofun nofun

/-- Constants and columns in rows fit, and there is a level for them. -/
theorem rows_fit {rows : List (List Node)} (hne : rows ≠ []) (h : ∀ r ∈ rows, ∀ v ∈ r, v.IsAtom)
    (hfits : ({ rows := rows } : Select).ClausesFit n) (hfilled : ∀ r ∈ rows, r ≠ []) :
    (∀ r ∈ rows, ∀ v ∈ r, v.ValueFits n) ∧ 0 < n := by
  have hvalues : ∀ r ∈ rows, ∀ v ∈ r, v.ValueFits n := fun r hr v hv =>
    (hfits.rows r hr v hv).resolve_left (h r hr v hv).ne_default
  obtain ⟨r, hr⟩ := List.exists_mem_of_ne_nil rows hne
  obtain ⟨v, hv⟩ := List.exists_mem_of_ne_nil r (hfilled r hr)
  exact ⟨hvalues, (hvalues r hr v hv).2⟩

/-- A query of constants and columns needs a level. -/
theorem Select.Elementary.pos (h : s.Elementary) (hfits : s.Fits n) (hsound : (Node.select s).Sound) :
    0 < n := by
  induction h generalizing n with
  | columns hne h => exact (columns_fit hne h hfits.clauses).2
  | rows hne h => exact (rows_fit hne h hfits.clauses (Node.sound_select.mp hsound).1.filled).2
  | @combined op l r _ all _ _ ihl _ =>
    obtain ⟨-, -, left, -⟩ := hfits
    exact Nat.lt_of_lt_of_le (ihl (left l rfl) ((Node.sound_select.mp hsound).2.left l rfl))
      (Nat.sub_le _ _)
  | clauses _ _ _ _ _ ih _ => exact ih hfits.core (sound_core hsound)

/-! ### Tokens -/

/-- The tokens of a query.  They are not to be computed where a parser is followed. -/
@[irreducible] def Select.kinds (s : Select) : List TokenKind :=
  kindsOf s.pieces

theorem ctesPieces_eq (cs : List Cte) : ctesPieces cs = cs.map Cte.pieces := by
  induction cs with
  | nil => rfl
  | cons c cs ih => rw [ctesPieces, ih, List.map_cons]

/-- The tokens of the common table expressions in front of a query. -/
def withKinds (ctes : Option With) : List TokenKind :=
  kindsOf (withPieces ctes)

/-- A query is written as its core between its clauses. -/
theorem pieces_select (s : Select) :
    s.pieces = withPieces s.ctes ++ s.core.pieces ++ listClause [.ORDER, .BY] (sortKeysPieces s.order)
      ++ limitPieces s.limitStyle (s.limit.any isAllRows) (operand? s.limit) (operand? s.offset)
      ++ s.locks.flatMap (fun l => .gap :: l.pieces) := by
  obtain ⟨distinct, targets, sources, condition, groups, having, windows, rows, order, offset, limit,
    style, locks, ctes, op, all, left, right⟩ := s
  rw [Select.pieces_eq, Select.core, Select.withoutTail, Select.pieces_eq]
  simp only [withPieces, List.nil_append, sortKeysPieces, listClause, List.isEmpty_nil, if_true,
    limitPieces, operand?, optionalClause, Option.map_none, Option.elim_none, reduceCtorEq, if_false,
    List.flatMap_nil, List.append_nil]

/-- The tokens of a query: those of its core between those of its clauses. -/
theorem kinds_select (s : Select) : s.kinds = withKinds s.ctes ++ (s.core.kinds ++ tailKinds s) := by
  have hlocks : kindsOf (s.locks.flatMap fun l => .gap :: l.pieces) = lockKinds s.locks := by
    rw [kindsOf, List.flatMap_assoc]
    rfl
  rw [Select.kinds, Select.kinds, pieces_select]
  simp only [kindsOf_append, kindsOf_order, hlocks, List.append_assoc]
  rfl

theorem kinds_columns (hne : es ≠ []) :
    (Select.ofColumns es).kinds = .keyword .SELECT :: commaKinds (es.map Node.kinds) := by
  have hpieces := pieces_columns hne
  rw [Node.select_pieces] at hpieces
  rw [Select.kinds, hpieces, kindsOf_cons, kindsOf_cons, kindsOf_commas, List.map_map]
  rfl

/-- The tokens of a row. -/
def rowKinds (r : List Node) : List TokenKind :=
  .leftParen :: (commaKinds (r.map Node.kinds) ++ [.rightParen])

theorem pieces_rows {rows : List (List Node)} (hne : rows ≠ []) :
    ({ rows := rows } : Select).pieces
      = .word .VALUES :: .gap :: commas (rows.map fun r => parens (commas (nodesPieces r))) := by
  have hrows (rows : List (List Node)) :
      rowsPieces rows = rows.map fun r => parens (commas (nodesPieces r)) := by
    induction rows with
    | nil => rfl
    | cons r rows ih => rw [rowsPieces, ih, List.map_cons]
  rw [Select.pieces_eq]
  simp [hne, hrows, withPieces, listClause, sortKeysPieces, limitPieces, operand?, optionalClause]

theorem kinds_rows {rows : List (List Node)} (hne : rows ≠ []) :
    ({ rows := rows } : Select).kinds = .keyword .VALUES :: commaKinds (rows.map rowKinds) := by
  rw [Select.kinds, pieces_rows hne, kindsOf_cons, kindsOf_cons, kindsOf_commas, List.map_map]
  refine congrArg (fun items => TokenKind.keyword .VALUES :: commaKinds items)
    (List.map_congr_left fun r _ => ?_)
  rw [Function.comp_apply, kindsOf_parens, kindsOf_commas_nodesPieces]
  rfl

/-! ### Combinations -/

/-- The tokens of an operand of a combination, which may stand in parentheses. -/
def operandKinds (wrap : Bool) (s : Select) : List TokenKind :=
  if wrap then .leftParen :: (s.kinds ++ [.rightParen]) else s.kinds

/-- The tokens between two combined queries. -/
def linkKinds (op : SetOp) (all : Bool) : List TokenKind :=
  op.words.map .keyword ++ if all then [.keyword .ALL] else []

theorem pieces_combined (op : SetOp) (all : Bool) (l r : Select) :
    (Select.combined op all l r).pieces
      = combinedPieces op all (parensIf (l.wrapsLeft op) l.pieces)
        (parensIf (r.wrapsRight op) r.pieces) := by
  rw [Select.combined, Select.pieces_eq]
  simp [withPieces, listClause, sortKeysPieces, limitPieces, operand?, optionalClause]

/-- A combination is written as its operands with its word between them. -/
theorem kinds_combined (op : SetOp) (all : Bool) (l r : Select) :
    (Select.combined op all l r).kinds = operandKinds (l.wrapsLeft op) l
      ++ (linkKinds op all ++ operandKinds (r.wrapsRight op) r) := by
  have hparens (wrap : Bool) (s : Select) :
      kindsOf (parensIf wrap s.pieces) = operandKinds wrap s := by
    unfold operandKinds Select.kinds
    cases wrap
    · rfl
    · exact kindsOf_parens _
  rw [Select.kinds, pieces_combined, combinedPieces]
  simp only [kindsOf_append, kindsOf_cons, kinds_gap, List.nil_append, hparens, kindsOf_words,
    linkKinds, List.append_assoc]
  cases all <;> simp [suffixIf]

end SqlSyntax
