import SqlSyntax.Proofs.Expression.Atoms
import SqlSyntax.Proofs.Expression.Selection
import SqlSyntax.Proofs.Tree.Shape

/-!
# Reading the clauses behind a query

The clauses behind a query are written in one order: the sort keys, the limit and the offset, and
the locking clauses.  Only a limit with ties stands behind the offset.  If they are made of
constants and columns, they are read back one after the other.

## Main definitions

* `EndsQuery` — the tokens may stand behind a query with all its clauses.
* `Select.withoutTail` — a query without the clauses behind it.
* `Select.AtomicTail` — these clauses are made of constants and columns.
* `tailKinds` — the tokens of these clauses.

## Main results

* `reads_tail` — **the clauses behind a query are read back.**
-/

namespace SqlSyntax

open Grammar

variable {n : Nat} {rest ts' : List TokenKind} {s t : Select} {v : Node}
variable {R : (r : Rule) → List TokenKind → r.Result → List TokenKind → Prop}

/-! ### Clauses -/

/-- The tokens may stand behind a query: the text or its parentheses end. -/
def EndsQuery (ts : List TokenKind) : Prop :=
  firstOf (settle ts) = .eof ∨ firstOf (settle ts) = .rightParen

theorem EndsQuery.list (h : EndsQuery rest) : EndsList rest := by
  unfold EndsList
  rcases h with h | h <;> rw [h] <;> rfl

theorem EndsQuery.continuesQuery_eq (h : EndsQuery rest) :
    continuesQuery (firstOf (settle rest)) = false := by
  rcases h with h | h <;> rw [h] <;> rfl

/-- Whether a token may stand behind the order of a query, be it written or not. -/
def endsOrder : TokenKind → Bool
  | .eof | .rightParen | .keyword .LIMIT | .keyword .OFFSET | .keyword .FETCH
  | .keyword .FOR => true
  | _ => false

/-- The tokens may stand behind the order of a query. -/
def EndsOrder (ts : List TokenKind) : Prop :=
  endsOrder (firstOf (settle ts)) = true

theorem EndsQuery.order (h : EndsQuery rest) : EndsOrder rest := by
  unfold EndsOrder
  rcases h with h | h <;> rw [h] <;> rfl

theorem EndsOrder.list (h : EndsOrder rest) : EndsList rest := by
  unfold EndsOrder endsOrder at h
  unfold EndsList
  split at h <;> first
    | (next heq => rw [heq]; rfl)
    | cases h

theorem EndsOrder.ne_order (h : EndsOrder rest) : firstOf (settle rest) ≠ .keyword .ORDER := by
  intro heq
  rw [EndsOrder, heq] at h
  cases h

/-- The tokens may stand behind a combination: the clauses behind the query start. -/
def EndsCombination (ts : List TokenKind) : Prop :=
  EndsOrder ts ∨ firstOf (settle ts) = .keyword .ORDER

theorem EndsOrder.combination (h : EndsOrder rest) : EndsCombination rest :=
  .inl h

theorem EndsCombination.list (h : EndsCombination rest) : EndsList rest := by
  obtain h | h := h
  · exact h.list
  · rw [EndsList, h]
    rfl

/-- The clauses start with no word of a combination. -/
theorem EndsCombination.ofWord? (h : EndsCombination rest) :
    (firstOf (settle rest)).keyword?.bind SetOp.ofWord? = none := by
  obtain h | h := h
  · unfold EndsOrder endsOrder at h
    split at h <;> first
      | (next heq => rw [heq]; rfl)
      | cases h
  · rw [h]
    rfl

/-- The query without the clauses behind it. -/
def Select.withoutTail (s : Select) : Select :=
  { s with order := [], limit := none, limitStyle := .unlimited, offset := none, locks := [] }

/-- The clauses behind a query are made of constants and columns. -/
structure Select.AtomicTail (s : Select) : Prop where
  order : ∀ k ∈ s.order, k.key.IsAtom
  limit : ∀ v ∈ s.limit, v.IsConstant
  offset : ∀ v ∈ s.offset, v.IsConstant

/-! ### Tokens -/

/-- The tokens of the clauses that limit the rows of a query. -/
def limitKinds (s : Select) : List TokenKind :=
  kindsOf (limitPieces s.limitStyle (s.limit.any isAllRows) (operand? s.limit) (operand? s.offset))

/-- The tokens of locking clauses. -/
def lockKinds (locks : List Locking) : List TokenKind :=
  locks.flatMap fun l => kindsOf l.pieces

/-- The tokens of the clauses behind a query. -/
def tailKinds (s : Select) : List TokenKind :=
  orderKinds s.order ++ (limitKinds s ++ lockKinds s.locks)

/-- The tokens of an offset. -/
def offsetKinds (offset : Option Node) : List TokenKind :=
  offset.elim [] fun v => .keyword .OFFSET :: v.kinds

/-- The tokens of a limit by a count. -/
def countKinds (limit : Option Node) : List TokenKind :=
  limit.elim [] fun v =>
    .keyword .LIMIT :: if isAllRows v then [.keyword .ALL] else v.kinds

theorem limitKinds_withTies (hs : s.limitStyle = .withTies)
    (hlimit : s.limit = some v) (hconstant : v.IsConstant) :
    limitKinds s = offsetKinds s.offset ++ (.keyword .FETCH :: .keyword .FIRST
      :: (v.kinds ++ [.keyword .ROWS, .keyword .WITH, .keyword .TIES])) := by
  have hlevel : ¬ v.level < Level.primary := by
    rw [hconstant.level_eq]
    exact Nat.lt_irrefl _
  rw [limitKinds, hs, hlimit]
  cases s.offset with
  | none =>
    simp [limitPieces, operand?, Operand.wrapIf, offsetKinds, optionalClause, hlevel, Node.kinds]
  | some o =>
    simp [limitPieces, operand?, Operand.wrapIf, offsetKinds, optionalClause, hlevel, Node.kinds]

theorem limitKinds_count (hs : s.limitStyle ≠ .withTies) :
    limitKinds s = countKinds s.limit ++ offsetKinds s.offset := by
  rw [limitKinds, limitPieces, if_neg hs]
  cases s.limit with
  | none => cases s.offset <;> simp [operand?, countKinds, offsetKinds, optionalClause, Node.kinds]
  | some v =>
    cases hall : isAllRows v <;> cases s.offset <;>
      simp [operand?, countKinds, offsetKinds, optionalClause, Node.kinds, hall]

/-! ### Reading -/

namespace Grammar

open SqlSyntax.Parser (bind_eq Steps)

/-- A number of rows is read back. -/
theorem reads_count (h : v.IsConstant) (hv : v.PlainIf True) (hn : 0 < n) {above : Level}
    (hrest : Follows 0 rest) :
    (operand above).ReadsWith (Rule.Within n) (settle (v.kinds ++ rest)) v (settle rest) :=
  Node.IsAtom.reads_operand (.inl h) ⟨hv, hn⟩ hrest

/-- The order of a query is read back. -/
theorem reads_queryOrder {order : List SortKey} (hs : s.order = [])
    (hkeys : ∀ k ∈ order, ∀ rest, Follows 0 rest →
      expression.ReadsWith R (settle (k.key.kinds ++ rest)) k.key (settle rest))
    (hdirections : ∀ k ∈ order, k.direction.IsRead) (hends : EndsOrder rest) :
    (queryOrder s).ReadsWith R (settle (orderKinds order ++ rest)) { s with order := order }
      (settle rest) := by
  cases order with
  | nil =>
    have hsame : ({ s with order := [] } : Select) = s := by
      cases s
      cases hs
      rfl
    rw [hsame]
    simp [orderKinds, queryOrder, hends.ne_order]
  | cons k order =>
    have hread := reads_sortKeys (List.cons_ne_nil k order) hkeys hdirections hends.list
    have hsettle : ∀ ts, settle (.keyword .ORDER :: .keyword .BY :: ts)
        = TokenKind.keyword .ORDER :: .keyword .BY :: settle ts := fun ts => by simp
    rw [orderKinds, List.isEmpty_cons, if_neg Bool.false_ne_true, List.cons_append, List.cons_append,
      hsettle]
    simp only [queryOrder, bind_eq, reads_index_bind, reads_acceptWord_bind, firstOf_cons, if_true,
      List.tail_cons, reads_expectWord_bind, true_and, hs, List.isEmpty_nil]
    exact fun _ => Parser.readsWith_bind hread ⟨rfl, rfl⟩

/-- A step over a clause that starts with a word of its own. -/
theorem steps_clause (w : Keyword) (ts : List TokenKind) {q : Select}
    (hw : (TokenKind.keyword w).isSettled = true)
    (hclause : (moreClauses s).ReadsWith R (.keyword w :: settle (ts ++ rest)) (some t) (settle rest))
    (hrest : Steps R moreClauses t (settle rest) q ts') :
    Steps R moreClauses s (settle (.keyword w :: (ts ++ rest))) q ts' := by
  rw [settle_cons, before_eq hw]
  refine .more hclause ?_ hrest
  simp only [List.length_cons, length_settle, List.length_append]
  omega

/-- A limit by a count. -/
theorem steps_count (hs : s.limit = none) (h : v.IsConstant) (hv : v.PlainIf True) (hn : 0 < n)
    (hends : EndsList rest) {q : Select}
    (hrest : Steps (Rule.Within n) moreClauses { s with limit := some v, limitStyle := .count }
      (settle rest) q ts') :
    Steps (Rule.Within n) moreClauses s (settle (countKinds (some v) ++ rest)) q ts' := by
  refine steps_clause .LIMIT _ rfl ?_ hrest
  have hcount : limitCount.ReadsWith (Rule.Within n)
      (settle ((if isAllRows v then [.keyword .ALL] else v.kinds) ++ rest)) v (settle rest) := by
    by_cases hall : isAllRows v = true
    · rw [if_pos hall, h.eq_null hall]
      simp [limitCount]
    · have hfirst := h.firstOf_ne hv (w := .ALL) (by decide) rest
      rw [if_neg hall]
      simp only [limitCount, bind_eq, reads_acceptWord_bind, hfirst, if_false, Bool.false_eq_true]
      exact reads_count h hv hn hends.item.follows
  have hcomma : firstOf (settle rest) ≠ .comma := hends.ne rfl
  simp only [moreClauses, bind_eq, reads_index_bind, reads_kind_bind, firstOf_cons,
    TokenKind.keyword?, reads_skip_bind, List.tail_cons, limit, hs, Option.isSome_none,
    Bool.false_eq_true, if_false, reads_bind_bind]
  intro _
  refine Parser.readsWith_bind hcount ?_
  simp [hcomma]

/-- An offset. -/
theorem steps_offset (hs : s.offset = none) (h : v.IsConstant) (hv : v.PlainIf True) (hn : 0 < n)
    (hends : EndsList rest) {q : Select}
    (hrest : Steps (Rule.Within n) moreClauses { s with offset := some v } (settle rest) q ts') :
    Steps (Rule.Within n) moreClauses s (settle (offsetKinds (some v) ++ rest)) q ts' := by
  refine steps_clause .OFFSET _ rfl ?_ hrest
  have hrows : firstOf (settle rest) ≠ .keyword .ROWS := hends.ne rfl
  have hrow : firstOf (settle rest) ≠ .keyword .ROW := hends.ne rfl
  simp only [moreClauses, bind_eq, reads_index_bind, reads_kind_bind, firstOf_cons,
    TokenKind.keyword?, reads_skip_bind, List.tail_cons, offset, hs, Option.isSome_none,
    Bool.false_eq_true, if_false, reads_bind_bind]
  intro _
  refine Parser.readsWith_bind (reads_count h hv hn hends.item.follows) ?_
  simp [hrows, hrow]

/-- A limit that includes ties. -/
theorem steps_fetch (hs : s.limit = none) (h : v.IsConstant) (hv : v.PlainIf True) (hn : 0 < n)
    {q : Select}
    (hrest : Steps (Rule.Within n) moreClauses { s with limit := some v, limitStyle := .withTies }
      (settle rest) q ts') :
    Steps (Rule.Within n) moreClauses s (settle (.keyword .FETCH :: .keyword .FIRST
      :: (v.kinds ++ [.keyword .ROWS, .keyword .WITH, .keyword .TIES]) ++ rest)) q ts' := by
  refine steps_clause .FETCH (.keyword .FIRST
    :: (v.kinds ++ [.keyword .ROWS, .keyword .WITH, .keyword .TIES])) rfl ?_ hrest
  let words : List TokenKind := .keyword .ROWS :: .keyword .WITH :: .keyword .TIES :: rest
  have hfollows : Follows 0 words := follows_of_tailLevel rfl rfl (Nat.le_refl 0)
  have hcount : fetchCount.ReadsWith (Rule.Within n) (settle (v.kinds ++ words)) v (settle words) := by
    simp only [fetchCount, bind_eq, reads_kind_bind]
    split
    · next heq => exact absurd heq (h.firstOf_ne hv (w := .ROW) (by decide) words)
    · next heq => exact absurd heq (h.firstOf_ne hv (w := .ROWS) (by decide) words)
    · exact reads_count h hv hn hfollows
  have hsettle : settle words = .keyword .ROWS :: .keyword .WITH :: .keyword .TIES :: settle rest := by
    simp [words, aheadKind, TokenKind.keyword?]
  rw [hsettle] at hcount
  rw [List.cons_append, List.append_assoc, settle_cons, before_eq rfl]
  simp only [moreClauses, bind_eq, reads_index_bind, reads_kind_bind, firstOf_cons,
    TokenKind.keyword?, reads_skip_bind, List.tail_cons, fetch, hs, Option.isSome_none,
    Bool.false_eq_true, if_false, expectEither, reads_acceptWord_bind, if_true, Parser.pure_eq,
    reads_done_bind, reads_bind_bind]
  intro _
  refine Parser.readsWith_bind hcount ?_
  simp [fetchStyle]

/-! ### Locking clauses -/

/-- The name of a table is read back. -/
theorem reads_tableName {t : TableRef} (ht : t.IsRead) (hneutral : (firstOf rest).isNeutral = true)
    (hdot : firstOf (settle rest) ≠ .dot) :
    tableName.ReadsWith R (settle (dottedKinds t.names ++ rest))
      { t with only := false, label := none } (settle rest) := by
  simp only [tableName, bind_eq, reads_index_bind]
  intro _
  refine Parser.readsWith_bind (reads_dottedName t.names_ne_nil hneutral hdot) ?_
  rw [tableOfNames, ht.whole]
  exact ⟨rfl, rfl⟩

theorem reads_lockStrength (l : LockStrength) (rest : List TokenKind) :
    ∃ ts, l.words.map TokenKind.keyword = .keyword .FOR :: ts ∧
      lockStrength.ReadsWith R (settle (ts ++ rest)) l (settle rest) := by
  cases l <;> refine ⟨_, rfl, ?_⟩ <;> simp [lockStrength, TokenKind.keyword?]

/-- What may stand behind the tables of a locking clause. -/
theorem reads_lockWait (w : LockWait) (hends : EndsList rest) :
    lockWait.ReadsWith R (settle (w.words.map .keyword ++ rest)) w (settle rest) := by
  cases w with
  | block =>
    have hnowait : firstOf (settle rest) ≠ .keyword .NOWAIT := hends.ne rfl
    have hskip : firstOf (settle rest) ≠ .keyword .SKIP := hends.ne rfl
    simp [LockWait.words, lockWait, hnowait, hskip]
  | skip => simp [LockWait.words, lockWait]
  | fail => simp [LockWait.words, lockWait]

/-- The tokens may stand behind the name of a table that is locked. -/
def EndsTableName (ts : List TokenKind) : Prop :=
  (firstOf ts).isNeutral = true ∧ firstOf (settle ts) ≠ .dot

theorem endsTableName_lockWait (w : LockWait) (hends : EndsList rest) :
    EndsTableName (w.words.map .keyword ++ rest) ∧
      firstOf (settle (w.words.map .keyword ++ rest)) ≠ .comma ∧
      firstOf (settle (w.words.map .keyword ++ rest)) ≠ .keyword .OF := by
  have hfollows : Follows 0 rest := hends.item.follows
  cases w with
  | block => exact ⟨⟨hfollows.isNeutral, hends.ne rfl⟩, hends.ne rfl, hends.ne rfl⟩
  | skip => exact ⟨⟨rfl, nofun⟩, nofun, nofun⟩
  | fail => exact ⟨⟨rfl, nofun⟩, nofun, nofun⟩

/-- The tables of a locking clause are read back. -/
theorem reads_lockTables {tables : List TableRef}
    (h : ∀ t ∈ tables, t.IsRead ∧ t.only = false ∧ t.label = none) (hends : EndsTableName rest)
    (hcomma : firstOf (settle rest) ≠ .comma) (hof : firstOf (settle rest) ≠ .keyword .OF) :
    (listAfter .OF (commaList tableName)).ReadsWith R
      (settle (kindsOf (listClause [.OF] (tables.map TableRef.pieces)) ++ rest)) tables
      (settle rest) := by
  cases tables with
  | nil => exact reads_listAfter_nil hof
  | cons t tables =>
    have hitem : ∀ u ∈ t :: tables, ∀ rest, EndsTableName rest →
        tableName.ReadsWith R (settle (kindsOf u.pieces ++ rest)) u (settle rest) := by
      intro u hu rest hrest
      obtain ⟨hread, honly, hlabel⟩ := h u hu
      have hkinds : kindsOf u.pieces = dottedKinds u.names := by
        simp [TableRef.pieces, honly, hlabel, labelPieces, optionalClause, wordsIf]
      have hsame : ({ u with only := false, label := none } : TableRef) = u := by
        rw [← honly, ← hlabel]
      have hname := reads_tableName (R := R) hread hrest.1 hrest.2
      rwa [hsame, ← hkinds] at hname
    have hlist := reads_commaList (fun _ => ⟨rfl, fun heq => by cases heq⟩) t tables hitem hends hcomma
    have hkinds : kindsOf (listClause [.OF] ((t :: tables).map TableRef.pieces)) ++ rest
        = .keyword .OF :: (kindsOf t.pieces
          ++ (tables.flatMap (fun u => .comma :: kindsOf u.pieces) ++ rest)) := by
      simp [listClause, commaKinds, List.flatMap_map]
    rw [hkinds, settle_cons, before_eq rfl]
    exact reads_listAfter hlist

/-- A locking clause is read back behind its first word. -/
theorem reads_locking {l : Locking}
    (htables : ∀ t ∈ l.tables, t.IsRead ∧ t.only = false ∧ t.label = none) (hends : EndsList rest) :
    ∃ ts, kindsOf l.pieces = .keyword .FOR :: ts ∧
      locking.ReadsWith R (settle (ts ++ rest)) l (settle rest) := by
  obtain ⟨tables, strength, wait⟩ := l
  obtain ⟨hbehind, hcomma, hof⟩ := endsTableName_lockWait wait hends
  obtain ⟨ts, hwords, hstrength⟩ := reads_lockStrength (R := R) strength
    (kindsOf (listClause [.OF] (tables.map TableRef.pieces)) ++ (wait.words.map .keyword ++ rest))
  refine ⟨ts ++ (kindsOf (listClause [.OF] (tables.map TableRef.pieces))
    ++ wait.words.map .keyword), ?_, ?_⟩
  · rw [Locking.pieces, kindsOf_append, kindsOf_append, kindsOf_words, hwords, kindsOf_suffixWords]
    simp
  · rw [List.append_assoc, List.append_assoc]
    refine Parser.readsWith_bind hstrength ?_
    refine Parser.readsWith_bind (reads_lockTables htables hbehind hcomma hof) ?_
    exact Parser.readsWith_bind (reads_lockWait wait hends) ⟨rfl, rfl⟩

/-- What stands behind the limits of a query. -/
theorem endsOrder_locks (locks : List Locking) (hends : EndsQuery rest) :
    EndsOrder (lockKinds locks ++ rest) := by
  cases locks with
  | nil => exact hends.order
  | cons l locks =>
    obtain ⟨tables, strength, wait⟩ := l
    cases strength <;> rfl

/-- Locking clauses are read one after the other. -/
theorem steps_locks {locks : List Locking}
    (h : ∀ l ∈ locks, ∀ t ∈ l.tables, t.IsRead ∧ t.only = false ∧ t.label = none)
    (hends : EndsQuery rest) :
    Steps R moreClauses s (settle (lockKinds locks ++ rest))
      { s with locks := s.locks ++ locks } (settle rest) := by
  induction locks generalizing s with
  | nil =>
    have hsame : ({ s with locks := s.locks ++ [] } : Select) = s := by
      cases s
      simp
    rw [hsame]
    exact .last (reads_moreClauses_none s hends.continuesQuery_eq)
  | cons l locks ih =>
    rw [List.forall_mem_cons] at h
    obtain ⟨ts, hkinds, hlocking⟩ := reads_locking (R := R) h.1 (endsOrder_locks locks hends).list
    have hrest := ih (s := { s with locks := s.locks ++ [l] }) h.2
    rw [List.append_assoc, List.singleton_append] at hrest
    have htokens : lockKinds (l :: locks) ++ rest
        = .keyword .FOR :: (ts ++ (lockKinds locks ++ rest)) := by
      rw [lockKinds, List.flatMap_cons, hkinds]
      simp [lockKinds]
    rw [htokens]
    refine steps_clause .FOR ts rfl ?_ hrest
    simp only [moreClauses, bind_eq, reads_index_bind, reads_kind_bind, firstOf_cons,
      TokenKind.keyword?, reads_skip_bind, List.tail_cons]
    exact fun _ => Parser.readsWith_bind hlocking ⟨rfl, rfl⟩

/-! ### All clauses -/

/-- An offset, if there is one. -/
theorem steps_offset? {offset : Option Node} (hs : s.offset = none)
    (h : ∀ v ∈ offset, v.IsConstant ∧ v.PlainIf True) (hn : 0 < n) (hends : EndsList rest) {q : Select}
    (hrest : Steps (Rule.Within n) moreClauses { s with offset := offset } (settle rest) q ts') :
    Steps (Rule.Within n) moreClauses s (settle (offsetKinds offset ++ rest)) q ts' := by
  cases offset with
  | none =>
    have hsame : ({ s with offset := none } : Select) = s := by
      cases s
      cases hs
      rfl
    rwa [hsame] at hrest
  | some v => exact steps_offset hs (h v rfl).1 (h v rfl).2 hn hends hrest

theorem endsOrder_offset (offset : Option Node) (hends : EndsOrder rest) :
    EndsOrder (offsetKinds offset ++ rest) := by
  cases offset with
  | none => exact hends
  | some v => rfl

/-- The limits of a query are read, with the locking clauses behind them. -/
theorem steps_limits (h : t.AtomicTail) (hfits : t.ClausesFit n) (hn : 0 < n) (hshaped : t.Shaped)
    (hends : EndsOrder rest)
    (hrest : Steps (Rule.Within n) moreClauses { t with locks := [] } (settle rest) s ts') :
    Steps (Rule.Within n) moreClauses { t.withoutTail with order := t.order }
        (settle (limitKinds t ++ rest)) s ts' ∧ EndsOrder (limitKinds t ++ rest) := by
  have hoffset : ∀ v ∈ t.offset, v.IsConstant ∧ v.PlainIf True :=
    fun v hv => ⟨h.offset v hv, hfits.offset v hv⟩
  have hbehind := endsOrder_offset t.offset hends
  cases hlimit : t.limit with
  | none =>
    have hstyle : t.limitStyle = .unlimited := by
      by_contra hstyle
      have hsome := hshaped.limited.mp hstyle
      rw [hlimit] at hsome
      cases hsome
    rw [limitKinds_count (by rw [hstyle]; nofun), hlimit]
    refine ⟨?_, hbehind⟩
    refine steps_offset? rfl hoffset hn hends.list ?_
    have hsame : { t with locks := [] }
        = { t with limit := none, limitStyle := .unlimited, locks := [] } := by
      rw [← hlimit, ← hstyle]
    rwa [hsame] at hrest
  | some v =>
    have hconstant : v.IsConstant ∧ v.PlainIf True := ⟨h.limit v hlimit, hfits.limit v hlimit⟩
    cases hstyle : t.limitStyle with
    | unlimited =>
      refine absurd hstyle (hshaped.limited.mpr ?_)
      rw [hlimit]
      rfl
    | count =>
      rw [limitKinds_count (by rw [hstyle]; nofun), hlimit, List.append_assoc]
      refine ⟨?_, rfl⟩
      refine steps_count rfl hconstant.1 hconstant.2 hn hbehind.list ?_
      refine steps_offset? rfl hoffset hn hends.list ?_
      have hsame : { t with locks := [] }
          = { t with limit := some v, limitStyle := .count, locks := [] } := by
        rw [← hlimit, ← hstyle]
      rwa [hsame] at hrest
    | withTies =>
      rw [limitKinds_withTies hstyle hlimit hconstant.1, List.append_assoc]
      have hfetch (ts : List TokenKind) : EndsOrder (.keyword .FETCH :: ts) := rfl
      refine ⟨?_, endsOrder_offset t.offset (hfetch _)⟩
      refine steps_offset? rfl hoffset hn (hfetch _).list ?_
      refine steps_fetch rfl hconstant.1 hconstant.2 hn ?_
      have hsame : { t with locks := [] }
          = { t with limit := some v, limitStyle := .withTies, locks := [] } := by
        rw [← hlimit, ← hstyle]
      rwa [hsame] at hrest

/-- **The clauses behind a query are read back**, and no word of a combination is at their
start. -/
theorem reads_tail (h : t.AtomicTail) (hfits : t.ClausesFit n) (hn : 0 < n) (hshaped : t.Shaped)
    (hends : EndsQuery rest) :
    (tail t.withoutTail).ReadsWith (Rule.Within n) (settle (tailKinds t ++ rest)) t (settle rest) ∧
      EndsCombination (tailKinds t ++ rest) := by
  have hlocks : Steps (Rule.Within n) moreClauses { t with locks := [] } _ _ _ :=
    steps_locks hfits.locks hends
  have hsame : ({ t with locks := [] ++ t.locks } : Select) = t := by
    cases t
    rfl
  rw [hsame] at hlocks
  obtain ⟨hsteps, hbehind⟩ := steps_limits h hfits hn hshaped (endsOrder_locks t.locks hends) hlocks
  have hties : hasUnorderedTies t = false := by
    rw [hasUnorderedTies, Bool.and_eq_false_imp]
    intro hstyle
    rw [List.isEmpty_eq_false_iff]
    exact hshaped.ties (eq_of_beq hstyle)
  have horder := reads_queryOrder (s := t.withoutTail) (R := Rule.Within n) rfl
    (fun k hk _ hrest => (h.order k hk).reads_operand ⟨(hfits.order k hk).1, hn⟩ hrest)
    (fun k hk => (hfits.order k hk).2) hbehind
  rw [tailKinds, List.append_assoc, List.append_assoc]
  refine ⟨Parser.readsWith_bind horder (Parser.readsWith_bind hsteps.reads ?_), ?_⟩
  · rw [hties]
    exact ⟨rfl, rfl⟩
  · rw [orderKinds]
    split
    · exact hbehind.combination
    · exact .inr rfl

end Grammar

end SqlSyntax
