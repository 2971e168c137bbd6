import SqlSyntax.Proofs.Query.Elementary

/-!
# Queries of constants and columns are read back

A query is read from the simple query at its start, to which the combinations behind it are
added step by step.  So an operand needs parentheses just where its own words would bind
otherwise, or where it has clauses.

## Main definitions

* `Select.ReadsFrom` — the steps that lead to a query.
* `Select.ReadsBack` — a query is read back, with its clauses and without them.

## Main results

* `readsFrom_combined` — **a combination is read from its first operand.**
* `Elementary.readsBack` — **queries of constants and columns are read back.**
-/

namespace SqlSyntax

open Grammar

variable {n : Nat} {rest ts ts' : List TokenKind} {s l r v : Select} {op : SetOp} {es : List Node}
variable {step : Select → Parser (Option Select)}
variable {R : (r : Rule) → List TokenKind → r.Result → List TokenKind → Prop}

namespace Grammar

open SqlSyntax.Parser (bind_eq Steps)

/-! ### Simple queries -/

/-- A selection of constants and columns is read back. -/
theorem reads_columnQuery (hne : es ≠ []) (h : ∀ e ∈ es, e.IsAtom) (hfits : ∀ e ∈ es, e.ValueFits n)
    (hends : EndsList rest) :
    simpleQuery.ReadsWith (Rule.Within n) (settle ((Select.ofColumns es).kinds ++ rest))
      (.ofColumns es) (settle rest) := by
  have hcolumn : ∀ e ∈ es, e.IsColumn := fun e he => .inr ((h e he).plain (hfits e he).1)
  have hcolumns : (commaList outputColumn).ReadsWith (Rule.Within n)
      (settle (commaKinds (es.map Node.kinds) ++ rest)) (es.map fun e => ⟨none, some e⟩)
      (settle rest) :=
    reads_columnList endsItem_comma hne
      (fun e he _ hrest => reads_column (hcolumn e he)
        (fun _ _ hfollows => (h e he).reads_operand (hfits e he) hfollows) hrest)
      hends.item (hends.ne rfl)
  have hsources : (listAfter .FROM sources).ReadsWith (Rule.Within n) (settle rest) [] (settle rest) :=
    reads_listAfter_nil (hends.ne rfl)
  rw [kinds_columns hne, List.cons_append, settle_cons, before_eq rfl]
  exact reads_simpleQuery_select
    (reads_selection hne hcolumn hcolumns (.inr hends.item.follows) hsources hends)

/-- A row of constants and columns is read back. -/
theorem reads_row {row : List Node} (hne : row ≠ []) (h : ∀ v ∈ row, v.IsAtom)
    (hfits : ∀ v ∈ row, v.ValueFits n) :
    Grammar.row.ReadsWith (Rule.Within n) (settle (rowKinds row ++ rest)) row (settle rest) := by
  have hitem : ∀ v ∈ row, ∀ rest, Follows 0 rest →
      valueOrDefault.ReadsWith (Rule.Within n) (settle (v.kinds ++ rest)) v (settle rest) := by
    intro v hv rest hrest
    have hdefault : firstOf (settle (v.kinds ++ rest)) ≠ .keyword .DEFAULT :=
      opensOperand_ne ((h v hv).starts (hfits v hv).1 hrest) _ rfl
    simp only [valueOrDefault, bind_eq, reads_acceptWord_bind, hdefault, if_false, Bool.false_eq_true]
    exact (h v hv).reads_operand (hfits v hv) hrest
  obtain ⟨v, row, rfl⟩ := List.exists_cons_of_ne_nil hne
  have hlist := reads_commaList (fun _ => follows_comma _) v row hitem (follows_rightParen rest)
    (rightParen_ne_comma rest)
  rw [rowKinds, List.map_cons, commaKinds, List.cons_append, List.append_assoc, List.append_assoc,
    List.flatMap_map, settle_paren (by simp)]
  exact reads_parenthesized hlist

theorem sameLength_of_even {rows : List (List Node)}
    (h : ∀ r ∈ rows, ∀ r' ∈ rows, r.length = r'.length) : sameLength rows = true := by
  cases rows with
  | nil => rfl
  | cons r rows =>
    refine List.all_eq_true.mpr fun r' hr' => ?_
    exact beq_iff_eq.mpr (h r' (List.mem_cons_of_mem r hr') r List.mem_cons_self)

/-- Rows of constants and columns are read back. -/
theorem reads_rowQuery {rows : List (List Node)} (hne : rows ≠ []) (h : ∀ r ∈ rows, ∀ v ∈ r, v.IsAtom)
    (hfits : ∀ r ∈ rows, ∀ v ∈ r, v.ValueFits n) (hfilled : ∀ r ∈ rows, r ≠ [])
    (heven : ∀ r ∈ rows, ∀ r' ∈ rows, r.length = r'.length) (hends : EndsList rest) :
    simpleQuery.ReadsWith (Rule.Within n) (settle (({ rows := rows } : Select).kinds ++ rest))
      { rows := rows } (settle rest) := by
  have hlist : (commaList row).ReadsWith (Rule.Within n)
      (settle (commaKinds (rows.map rowKinds) ++ rest)) rows (settle rest) := by
    obtain ⟨r, rows, rfl⟩ := List.exists_cons_of_ne_nil hne
    rw [List.map_cons, commaKinds, List.append_assoc, List.flatMap_map]
    exact reads_commaList (p := EndsItem) endsItem_comma r rows
      (fun r' hr' _ _ => reads_row (hfilled r' hr') (h r' hr') (hfits r' hr')) hends.item (hends.ne rfl)
  rw [kinds_rows hne, List.cons_append, settle_cons, before_eq rfl]
  simp only [simpleQuery, bind_eq, reads_kind_bind, firstOf_cons, Grammar.rows, reads_index_bind,
    reads_skip_bind, List.tail_cons]
  intro _
  refine Parser.readsWith_bind hlist ?_
  rw [sameLength_of_even heven]
  exact ⟨rfl, rfl⟩

/-- Whether a token starts a simple query. -/
def startsSimple : TokenKind → Bool
  | .keyword .SELECT | .keyword .VALUES | .leftParen => true
  | _ => false

/-- The tokens start with a simple query. -/
def StartsSimple (ts : List TokenKind) : Prop :=
  startsSimple (firstOf ts) = true

theorem StartsSimple.ne (h : StartsSimple ts) {k : TokenKind} (hk : startsSimple k = false) :
    firstOf ts ≠ k := by
  rintro rfl
  rw [StartsSimple, hk] at h
  cases h

theorem starts_simpleQuery (h : simpleQuery.ReadsWith R ts s ts') : StartsSimple ts := by
  unfold StartsSimple
  simp only [simpleQuery, bind_eq, reads_kind_bind] at h
  split at h <;> first
    | (next heq => rw [heq]; rfl)
    | exact (h 0).elim

/-! ### Combinations -/

/-- The steps read the queries behind the word of a combination, and any steps read none. -/
def ReadsQueryLinks (step : Select → Parser (Option Select)) (op : SetOp) : Prop :=
  step = moreCombined ∨ step = moreIntersected ∧ SetOp.union.precedence < op.precedence ∨ op = .none

/-- A step over the word of a combination and the query behind it. -/
theorem reads_queryLink (hstep : ReadsQueryLinks step op) (hop : op ≠ .none) (all : Bool)
    (hstarts : firstOf (settle ts) ≠ .keyword .ALL ∧ firstOf (settle ts) ≠ .keyword .DISTINCT)
    (hr : (secondQuery op).ReadsWith R (settle ts) r ts') :
    (step l).ReadsWith R (settle (linkKinds op all ++ ts)) (some (.combined op all l r)) ts' := by
  have hall : allOrDistinct.ReadsWith R
      (settle ((if all then [.keyword .ALL] else []) ++ ts)) all (settle ts) := by
    cases all with
    | false => simp [allOrDistinct, hstarts]
    | true => simp [allOrDistinct]
  have hcombined : (combinedWith op l (secondQuery op)).ReadsWith R
      (settle ((if all then [.keyword .ALL] else []) ++ ts)) (.combined op all l r) ts' :=
    Parser.readsWith_bind hall (Parser.readsWith_bind hr ⟨rfl, rfl⟩)
  obtain ⟨w, hw, hwords, hsettled⟩ : ∃ w, SetOp.ofWord? w = some op ∧ op.words = [w] ∧
      (TokenKind.keyword w).isSettled = true := by
    cases op with
    | none => exact absurd rfl hop
    | union => exact ⟨.UNION, rfl, rfl, rfl⟩
    | intersect => exact ⟨.INTERSECT, rfl, rfl, rfl⟩
    | except => exact ⟨.EXCEPT, rfl, rfl, rfl⟩
  rw [linkKinds, hwords, List.map_singleton, List.singleton_append, List.cons_append, settle_cons,
    before_eq hsettled]
  obtain rfl | ⟨rfl, hlt⟩ | rfl := hstep
  · simp only [moreCombined, bind_eq, reads_kind_bind, firstOf_cons, TokenKind.keyword?,
      Option.bind_some, hw, reads_skip_bind, List.tail_cons]
    exact Parser.readsWith_bind hcombined ⟨rfl, rfl⟩
  · obtain rfl : op = .intersect := by
      cases op <;> first | rfl | exact absurd rfl hop | exact absurd hlt (by decide)
    obtain rfl : w = .INTERSECT := (List.singleton_inj.mp hwords).symm
    simp only [moreIntersected, bind_eq, reads_acceptWord_bind, firstOf_cons, if_true, List.tail_cons]
    exact Parser.readsWith_bind hcombined ⟨rfl, rfl⟩
  · exact absurd rfl hop

end Grammar

open SqlSyntax.Parser (bind_eq Steps)

/-- The steps lead to a query from the simple query at its start.  The query stands in
parentheses if `wrap` holds.  No `INTERSECT` may follow a looser combination. -/
def Select.ReadsFrom (step : Select → Parser (Option Select)) (wrap : Bool) (s : Select) (n : Nat) :
    Prop :=
  ∀ rest v ts', EndsList rest →
    (wrap = false → s.op.precedence = SetOp.union.precedence →
      firstOf (settle rest) ≠ .keyword .INTERSECT) →
    Steps (Rule.Within n) step s (settle rest) v ts' →
    ∃ first ts₁,
      simpleQuery.ReadsWith (Rule.Within n) (settle (operandKinds wrap s ++ rest)) first ts₁ ∧
      Steps (Rule.Within n) step first ts₁ v ts'

/-- A query is read back, with its clauses and without them.  It starts with a simple query, or
with its common table expressions. -/
structure Select.ReadsBack (s : Select) (n : Nat) : Prop where
  starts : s.ctes = none → ∀ rest, EndsQuery rest → StartsSimple (settle (s.kinds ++ rest))
  behindWith : ∀ w, s.ctes = some w → ∀ rest, EndsQuery rest →
    ∃ ts ts₁, settle (s.kinds ++ rest) = .keyword .WITH :: ts ∧
      Grammar.ctes.ReadsWith (Rule.Within n) ts w ts₁ ∧ StartsSimple ts₁ ∧
      (queryAfter w).ReadsWith (Rule.Within n) ts₁ s (settle rest)
  whole : ∀ rest, EndsQuery rest →
    queryWithClauses.ReadsWith (Rule.Within n) (settle (s.kinds ++ rest)) s (settle rest)
  bare : ∀ step, ReadsQueryLinks step s.op → s.core.ReadsFrom step false n

/-- A query without clauses is its core. -/
theorem core_eq (htail : s.hasTail = false) (hshaped : s.Shaped) : s.core = s := by
  obtain ⟨distinct, targets, sources, condition, groups, having, windows, rows, order, offset, limit,
    style, locks, ctes, op, all, left, right⟩ := s
  simp only [Select.hasTail, Bool.or_eq_false_iff, Bool.not_eq_false', List.isEmpty_iff,
    Option.isSome_eq_false_iff, Option.isNone_iff_eq_none] at htail
  obtain ⟨⟨⟨⟨rfl, rfl⟩, rfl⟩, rfl⟩, rfl⟩ := htail
  have hstyle : style = .unlimited := by
    by_contra hstyle
    cases hshaped.limited.mp hstyle
  subst hstyle
  rfl

namespace Grammar

/-- A query in parentheses is simple. -/
theorem readsFrom_wrapped (h : ∀ rest, EndsQuery rest →
      queryWithClauses.ReadsWith (Rule.Within n) (settle (s.kinds ++ rest)) s (settle rest)) :
    s.ReadsFrom step true (n + 1) := by
  intro rest v ts' hends _ hsteps
  refine ⟨s, settle rest, ?_, hsteps⟩
  have hquery : query.ReadsWith (Rule.Within (n + 1)) (settle (s.kinds ++ .rightParen :: rest)) s
      (.rightParen :: settle rest) :=
    ⟨s, _, h (.rightParen :: rest) (.inr rfl), rfl, rfl⟩
  rw [operandKinds, if_pos rfl, List.cons_append, List.append_assoc, List.singleton_append,
    settle_paren (by simp)]
  exact reads_parenthesized hquery

/-- No steps lead to a simple query. -/
theorem readsFrom_simple (h : ∀ rest, EndsList rest →
      simpleQuery.ReadsWith (Rule.Within n) (settle (s.kinds ++ rest)) s (settle rest)) :
    s.ReadsFrom step false n :=
  fun rest _ _ hends _ hsteps => ⟨s, settle rest, h rest hends, hsteps⟩

/-- An operand of a combination is read from its start. -/
theorem readsFrom_operand {wrap : Bool} (h : s.ReadsBack (n - wrap.toNat)) (hn : 0 < n)
    (hbare : wrap = false → s.core = s ∧ ReadsQueryLinks step s.op) : s.ReadsFrom step wrap n := by
  cases wrap with
  | true =>
    obtain ⟨m, rfl⟩ := Nat.exists_eq_succ_of_ne_zero (Nat.ne_of_gt hn)
    exact readsFrom_wrapped h.whole
  | false =>
    obtain ⟨hcore, hstep⟩ := hbare rfl
    exact hcore ▸ h.bare step hstep

/-- The second query of a combination is read back, and its first token is no word of the
combination. -/
theorem reads_secondQuery (hop : op ≠ .none) {wrap : Bool}
    (h : ∀ step, op = .intersect ∨ step = moreIntersected → r.ReadsFrom step wrap n)
    (htight : wrap = false → r.op.precedence ≠ SetOp.union.precedence) (hends : EndsList rest)
    (hne : op.precedence = SetOp.union.precedence → firstOf (settle rest) ≠ .keyword .INTERSECT) :
    (secondQuery op).ReadsWith (Rule.Within n) (settle (operandKinds wrap r ++ rest)) r (settle rest) ∧
      firstOf (settle (operandKinds wrap r ++ rest)) ≠ .keyword .ALL ∧
      firstOf (settle (operandKinds wrap r ++ rest)) ≠ .keyword .DISTINCT := by
  have hloose : wrap = false → r.op.precedence = SetOp.union.precedence →
      firstOf (settle rest) ≠ .keyword .INTERSECT := fun hw heq => absurd heq (htight hw)
  have hstarts {first : Select} {ts₁ : List TokenKind} (hread : simpleQuery.ReadsWith (Rule.Within n)
      (settle (operandKinds wrap r ++ rest)) first ts₁) :
      firstOf (settle (operandKinds wrap r ++ rest)) ≠ .keyword .ALL ∧
        firstOf (settle (operandKinds wrap r ++ rest)) ≠ .keyword .DISTINCT :=
    ⟨(starts_simpleQuery hread).ne rfl, (starts_simpleQuery hread).ne rfl⟩
  have hintersection (hlow : op.precedence = SetOp.union.precedence) :
      intersection.ReadsWith (Rule.Within n) (settle (operandKinds wrap r ++ rest)) r (settle rest) ∧
        firstOf (settle (operandKinds wrap r ++ rest)) ≠ .keyword .ALL ∧
        firstOf (settle (operandKinds wrap r ++ rest)) ≠ .keyword .DISTINCT := by
    have hlast : (moreIntersected r).ReadsWith (Rule.Within n) (settle rest) none (settle rest) := by
      simp [moreIntersected, hne hlow]
    obtain ⟨first, ts₁, hread, hsteps⟩ := h moreIntersected (.inr rfl) rest r _ hends hloose
      (.last hlast)
    exact ⟨Parser.readsWith_bind hread hsteps.reads, hstarts hread⟩
  cases op with
  | none => exact absurd rfl hop
  | intersect =>
    -- a simple query is what no steps lead to
    obtain ⟨first, ts₁, hread, hsteps⟩ := h (fun _ => .done none) (.inl rfl) rest r _ hends hloose
      (.last ⟨rfl, rfl⟩)
    cases hsteps with
    | last _ => exact ⟨hread, hstarts hread⟩
    | more hstep _ _ => cases hstep.1
  | union => exact hintersection rfl
  | except => exact hintersection rfl

/-- **A combination is read from its first operand.** -/
theorem readsFrom_combined (hop : op ≠ .none) (all : Bool) (hstep : ReadsQueryLinks step op)
    {wl wr : Bool} (hkinds : (Select.combined op all l r).kinds
      = operandKinds wl l ++ (linkKinds op all ++ operandKinds wr r))
    (hl : l.ReadsFrom step wl n) (hloose : wl = false → op.precedence ≤ l.op.precedence)
    (hr : ∀ step, op = .intersect ∨ step = moreIntersected → r.ReadsFrom step wr n)
    (htight : wr = false → op.precedence < r.op.precedence) :
    (Select.combined op all l r).ReadsFrom step false n := by
  intro rest v ts' hends hne hsteps
  have hlow : SetOp.union.precedence ≤ op.precedence := by cases op <;> decide
  obtain ⟨hsecond, hstarts⟩ := reads_secondQuery hop hr
    (fun hw => Nat.ne_of_gt (Nat.lt_of_le_of_lt hlow (htight hw))) hends (hne rfl)
  have hlink := reads_queryLink (l := l) hstep hop all hstarts hsecond
  have hends' : EndsList (linkKinds op all ++ (operandKinds wr r ++ rest)) := by
    cases op <;> first | exact absurd rfl hop | rfl
  have hne' : wl = false → l.op.precedence = SetOp.union.precedence →
      firstOf (settle (linkKinds op all ++ (operandKinds wr r ++ rest))) ≠ .keyword .INTERSECT := by
    intro hw heq
    have hle := hloose hw
    rw [heq] at hle
    cases op <;> first | exact absurd rfl hop | exact absurd hle (by decide) | nofun
  have hmoves : (settle rest).length
      < (settle (linkKinds op all ++ (operandKinds wr r ++ rest))).length := by
    have hpos : 0 < (linkKinds op all).length := by
      cases op <;> first | exact absurd rfl hop | simp [linkKinds, SetOp.words]
    simp only [length_settle, List.length_append]
    omega
  obtain ⟨first, ts₁, hread, hfirst⟩ := hl _ v ts' hends' hne' (.more hlink hmoves hsteps)
  refine ⟨first, ts₁, ?_, hfirst⟩
  rw [operandKinds, if_neg Bool.false_ne_true, hkinds, List.append_assoc, List.append_assoc]
  exact hread

/-! ### Common table expressions -/

/-- A query is no change of rows. -/
theorem reads_change?_none (h : StartsSimple ts ∨ firstOf ts = .keyword .WITH) :
    change?.ReadsWith R ts none ts := by
  simp only [change?, bind_eq, reads_kind_bind]
  obtain h | h := h
  · unfold StartsSimple startsSimple at h
    split at h <;> first
      | (next heq => rw [heq]; exact ⟨rfl, rfl⟩)
      | cases h
  · rw [h]
    exact ⟨rfl, rfl⟩

theorem reads_materialization (m : Materialization) :
    materialization.ReadsWith R (settle (m.words.map .keyword ++ .leftParen :: rest)) m
      (settle (.leftParen :: rest)) := by
  cases m <;> simp [Materialization.words, materialization, aheadKind, TokenKind.keyword?,
    TokenKind.before]

theorem kindsOf_cte (c : Cte) :
    kindsOf c.pieces = nameKind c.name :: (kindsOf (nameListIfAny [] c.columns)
      ++ (.keyword .AS :: (c.materialization.words.map .keyword
        ++ (.leftParen :: (c.query.kinds ++ [.rightParen]))))) := by
  obtain ⟨name, columns, m, query⟩ := c
  rw [Cte.pieces]
  simp [Node.kinds]

/-- A common table expression is read back if its query is. -/
theorem reads_cte {c : Cte} {q : Select} (hquery : c.query = .select q) (h : q.ReadsBack n) :
    cte.ReadsWith (Rule.Within (n + 1)) (settle (kindsOf c.pieces ++ rest)) c (settle rest) := by
  obtain ⟨cname, columns, m, query⟩ := c
  obtain rfl : query = .select q := hquery
  have hends : EndsQuery (.rightParen :: rest) := .inr rfl
  have hread : query.ReadsWith (Rule.Within (n + 1)) (settle (q.kinds ++ .rightParen :: rest)) q
      (.rightParen :: settle rest) :=
    ⟨q, _, h.whole _ hends, rfl, rfl⟩
  have hbody : (parenthesized cteBody).ReadsWith (Rule.Within (n + 1))
      (settle (.leftParen :: (q.kinds ++ .rightParen :: rest))) (.select q) (settle rest) := by
    rw [settle_paren (by simp)]
    refine reads_parenthesized ?_
    refine Parser.readsWith_bind (reads_change?_none ?_) (Parser.readsWith_bind hread ⟨rfl, rfl⟩)
    cases hctes : q.ctes with
    | none => exact .inl (h.starts hctes _ hends)
    | some w =>
      obtain ⟨ts, -, hts, -⟩ := h.behindWith w hctes _ hends
      exact .inr (congrArg firstOf hts)
  have hneutral : (firstOf (kindsOf (nameListIfAny [] columns)
      ++ .keyword .AS :: (m.words.map .keyword
        ++ .leftParen :: (q.kinds ++ .rightParen :: rest)))).isNeutral = true := by
    cases columns <;> rfl
  have hkinds : kindsOf (Cte.pieces ⟨cname, columns, m, .select q⟩) ++ rest
      = nameKind cname :: (kindsOf (nameListIfAny [] columns) ++ .keyword .AS :: (m.words.map .keyword
        ++ .leftParen :: (q.kinds ++ .rightParen :: rest))) := by
    rw [kindsOf_cte]
    simp [Node.kinds, Node.select_pieces, Select.kinds]
  rw [hkinds]
  refine Parser.readsWith_bind (reads_name hneutral) ?_
  refine Parser.readsWith_bind (reads_optionalNameList columns fun heq => by cases heq) ?_
  rw [settle_cons, before_eq rfl]
  simp only [bind_eq, reads_expectWord_bind, firstOf_cons, List.tail_cons, true_and]
  refine Parser.readsWith_bind (reads_materialization m) ?_
  exact Parser.readsWith_bind hbody ⟨rfl, rfl⟩

/-- The common table expressions in front of a query are read back, behind the word for them. -/
theorem reads_ctes {w : With} (hne : w.ctes ≠ []) (hnames : ∀ c ∈ w.ctes, IsIdentifier c.name)
    (h : ∀ c ∈ w.ctes, ∃ q, c.query = .select q ∧ q.ReadsBack n)
    (hcomma : firstOf (settle rest) ≠ .comma) :
    ∃ ts, settle (withKinds (some w) ++ rest) = .keyword .WITH :: ts ∧
      ctes.ReadsWith (Rule.Within (n + 1)) ts w (settle rest) := by
  obtain ⟨items, recursive⟩ := w
  obtain ⟨c, cs, rfl⟩ := List.exists_cons_of_ne_nil hne
  have hlist : (commaList cte).ReadsWith (Rule.Within (n + 1))
      (settle (commaKinds ((c :: cs).map fun c => kindsOf c.pieces) ++ rest)) (c :: cs)
      (settle rest) := by
    have hitem : ∀ c' ∈ c :: cs, ∀ rest, True →
        cte.ReadsWith (Rule.Within (n + 1)) (settle (kindsOf c'.pieces ++ rest)) c' (settle rest) := by
      intro c' hc' rest _
      obtain ⟨q, hquery, hq⟩ := h c' hc'
      exact reads_cte hquery hq
    rw [List.map_cons, commaKinds, List.append_assoc, List.flatMap_map]
    exact reads_commaList (fun _ => trivial) c cs hitem trivial hcomma
  -- the first name is no keyword, so it changes no word in front of it
  obtain ⟨ts₀, hts₀⟩ : ∃ ts₀, commaKinds ((c :: cs).map fun c => kindsOf c.pieces) ++ rest
      = .name c.name :: ts₀ := by
    rw [List.map_cons, commaKinds, kindsOf_cte, (hnames c List.mem_cons_self).nameKind_eq]
    exact ⟨_, rfl⟩
  rw [hts₀, settle_cons, before_eq rfl] at hlist
  have hkinds : withKinds (some ⟨c :: cs, recursive⟩) ++ rest
      = .keyword .WITH :: ((if recursive then [TokenKind.keyword .RECURSIVE] else [])
        ++ .name c.name :: ts₀) := by
    rw [← hts₀, withKinds, withPieces, With.pieces, ctesPieces_eq]
    cases recursive <;> (simp; rfl)
  rw [hkinds]
  cases recursive with
  | false =>
    refine ⟨_, rfl, ?_⟩
    simp only [ctes, bind_eq, Bool.false_eq_true, if_false, List.nil_append, settle_cons,
      reads_acceptWord_bind, firstOf_cons]
    exact Parser.readsWith_bind hlist ⟨rfl, rfl⟩
  | true =>
    refine ⟨_, rfl, ?_⟩
    simp only [ctes, bind_eq, if_true, List.singleton_append, settle_cons, reads_acceptWord_bind,
      firstOf_cons]
    exact Parser.readsWith_bind hlist ⟨rfl, rfl⟩

/-! ### All clauses -/

variable (hcore : s.core.ReadsFrom moreCombined false n) (htail : s.AtomicTail)
  (hfits : s.ClausesFit n) (hn : 0 < n) (hshaped : s.Shaped)

include hcore htail hfits hn hshaped

/-- A query is read with the clauses behind it, from its core on. -/
theorem reads_body (hends : EndsQuery rest) :
    (combination.bind tail).ReadsWith (Rule.Within n) (settle (s.core.kinds ++ (tailKinds s ++ rest)))
        { s with ctes := none } (settle rest) ∧
      ∃ first ts₁, simpleQuery.ReadsWith (Rule.Within n)
        (settle (s.core.kinds ++ (tailKinds s ++ rest))) first ts₁ := by
  let t : Select := { s with ctes := none }
  have hshaped : t.Shaped :=
    ⟨⟨hshaped.combined, hshaped.alone, hshaped.bare, hshaped.filled, hshaped.even, hshaped.limited⟩,
      hshaped.ties⟩
  obtain ⟨hreadTail, hbehind⟩ := reads_tail (t := t) ⟨htail.order, htail.limit, htail.offset⟩
    { hfits with ctes := nofun } hn hshaped hends
  have hne : firstOf (settle (tailKinds s ++ rest)) ≠ .keyword .INTERSECT := by
    intro heq
    have hword : (firstOf (settle (tailKinds s ++ rest))).keyword?.bind SetOp.ofWord? = none :=
      hbehind.ofWord?
    rw [heq] at hword
    cases hword
  have hlast : (moreCombined s.core).ReadsWith (Rule.Within n) (settle (tailKinds s ++ rest)) none
      (settle (tailKinds s ++ rest)) :=
    reads_moreCombined_none _ hbehind.ofWord?
  obtain ⟨first, ts₁, hread, hsteps⟩ := hcore (tailKinds s ++ rest) s.core _
    hbehind.list (fun _ _ => hne) (.last hlast)
  have hcombination : combination.ReadsWith (Rule.Within n) _ s.core _ :=
    Parser.readsWith_bind hread hsteps.reads
  exact ⟨Parser.readsWith_bind hcombination hreadTail, first, ts₁, hread⟩

/-- A query without common table expressions is read back. -/
theorem reads_withoutWith (hs : s.ctes = none) (hends : EndsQuery rest) :
    queryWithClauses.ReadsWith (Rule.Within n) (settle (s.kinds ++ rest)) s (settle rest) ∧
      StartsSimple (settle (s.kinds ++ rest)) := by
  obtain ⟨hbody, first, ts₁, hread⟩ := reads_body hcore htail hfits hn hshaped hends
  have hsame : ({ s with ctes := none } : Select) = s := by
    cases s
    cases hs
    rfl
  have hkinds : s.kinds ++ rest = s.core.kinds ++ (tailKinds s ++ rest) := by
    rw [kinds_select, hs, List.append_assoc, List.append_assoc]
    rfl
  have hstarts := starts_simpleQuery hread
  have hwith : firstOf (settle (s.core.kinds ++ (tailKinds s ++ rest))) ≠ .keyword .WITH :=
    hstarts.ne rfl
  rw [hsame] at hbody
  rw [hkinds]
  refine ⟨?_, hstarts⟩
  simp only [queryWithClauses, bind_eq, reads_acceptWord_bind, hwith, if_false, Bool.false_eq_true]
  exact hbody

/-- A query with common table expressions is read back, behind its first word. -/
theorem reads_behindWith {w : With} (hs : s.ctes = some w) (hnames : ∀ c ∈ w.ctes, IsIdentifier c.name)
    (hqueries : ∀ c ∈ w.ctes, ∃ q, c.query = .select q ∧ q.ReadsBack (n - 1))
    (hends : EndsQuery rest) :
    ∃ ts ts₁, settle (s.kinds ++ rest) = .keyword .WITH :: ts ∧
      ctes.ReadsWith (Rule.Within n) ts w ts₁ ∧ StartsSimple ts₁ ∧
      (queryAfter w).ReadsWith (Rule.Within n) ts₁ s (settle rest) := by
  obtain ⟨m, rfl⟩ := Nat.exists_eq_succ_of_ne_zero (Nat.ne_of_gt hn)
  obtain ⟨hbody, first, ts₁, hread⟩ := reads_body hcore htail hfits hn hshaped hends
  have hkinds : s.kinds ++ rest
      = withKinds (some w) ++ (s.core.kinds ++ (tailKinds s ++ rest)) := by
    rw [kinds_select, hs, List.append_assoc, List.append_assoc]
  have hstarts := starts_simpleQuery hread
  have hcomma : firstOf (settle (s.core.kinds ++ (tailKinds s ++ rest))) ≠ .comma := hstarts.ne rfl
  obtain ⟨ts, hts, hctes⟩ := reads_ctes (hfits.ctes w hs).1 hnames hqueries hcomma
  have hsame : ({ ({ s with ctes := none } : Select) with ctes := some w } : Select) = s := by
    cases s
    cases hs
    rfl
  rw [hkinds]
  refine ⟨ts, _, hts, hctes, hstarts, ?_⟩
  simp only [queryAfter, bind_eq, reads_index_bind]
  intro _
  rw [← Parser.bind_bind]
  refine Parser.readsWith_bind hbody ?_
  rw [← hsame]
  exact ⟨rfl, rfl⟩

end Grammar

/-! ### Queries of constants and columns -/

namespace Select

/-- A query without clauses is read back if it is read from its start. -/
theorem readsBack_of_core (hcore : s.core = s) (hfits : s.Fits n) (hsound : (Node.select s).Sound)
    (hn : 0 < n) (h : ∀ step, ReadsQueryLinks step s.op → s.ReadsFrom step false n) : s.ReadsBack n := by
  have hshaped := (Node.sound_select.mp hsound).1
  have htail : s.AtomicTail := hcore ▸ ⟨nofun, nofun, nofun⟩
  have hctes : s.ctes = none := by
    rw [← hcore]
    rfl
  have hsteps : s.core.ReadsFrom moreCombined false n := hcore.symm ▸ h _ (.inl rfl)
  have hread (rest : List TokenKind) (hends : EndsQuery rest) :=
    reads_withoutWith hsteps htail hfits.clauses hn hshaped hctes hends
  exact {
    starts := fun _ rest hends => (hread rest hends).2
    behindWith := fun w hw => by cases hctes.symm.trans hw
    whole := fun rest hends => (hread rest hends).1
    bare := hcore.symm ▸ h }

/-- The operands of a combination are read back, so the combination is. -/
theorem readsBack_combined (hop : op ≠ .none) (all : Bool) (hn : 0 < n)
    (hfits : (combined op all l r).Fits n) (hsound : (Node.select (combined op all l r)).Sound)
    (hl : l.ReadsBack (n - (l.wrapsLeft op).toNat)) (hr : r.ReadsBack (n - (r.wrapsRight op).toNat)) :
    (combined op all l r).ReadsBack n := by
  have hbelow := (Node.sound_select.mp hsound).2
  have hshapedL : l.Shaped := (Node.sound_select.mp (hbelow.left l rfl)).1
  have hshapedR : r.Shaped := (Node.sound_select.mp (hbelow.right r rfl)).1
  have hleft (hw : l.wrapsLeft op = false) : l.hasTail = false ∧ op.precedence ≤ l.op.precedence := by
    simpa [wrapsLeft] using hw
  have hright (hw : r.wrapsRight op = false) : r.hasTail = false ∧ op.precedence < r.op.precedence := by
    simpa [wrapsRight] using hw
  refine readsBack_of_core rfl hfits hsound hn fun step hstep => ?_
  refine readsFrom_combined hop all hstep (kinds_combined op all l r) ?_ (fun hw => (hleft hw).2) ?_
    fun hw => (hright hw).2
  · refine readsFrom_operand hl hn fun hw => ⟨core_eq (hleft hw).1 hshapedL, ?_⟩
    -- an operand without parentheses binds no less tightly than the combination
    exact hstep.imp_right fun h => h.elim
      (fun h => .inl ⟨h.1, Nat.lt_of_lt_of_le h.2 (hleft hw).2⟩) fun h => absurd h hop
  · intro step hstep
    refine readsFrom_operand hr hn fun hw => ⟨core_eq (hright hw).1 hshapedR, .inr ?_⟩
    have htight := (hright hw).2
    obtain rfl | rfl := hstep
    · right
      cases hr : r.op <;> first | rfl | (rw [hr] at htight; exact absurd htight (by decide))
    · refine .inl ⟨rfl, Nat.lt_of_le_of_lt ?_ htight⟩
      cases op <;> decide

/-- **Queries of constants and columns are read back**, if they fit in the levels that there
are. -/
theorem Elementary.readsBack (h : s.Elementary) (hfits : s.Fits n) (hsound : (Node.select s).Sound) :
    s.ReadsBack n := by
  have hn := h.pos hfits hsound
  induction h generalizing n with
  | @columns es hne hes =>
    have hvalues := (columns_fit hne hes hfits.clauses).1
    exact readsBack_of_core rfl hfits hsound hn fun _ _ =>
      readsFrom_simple fun _ hends => reads_columnQuery hne hes hvalues hends
  | @rows rows hne hrows =>
    have hshaped := (Node.sound_select.mp hsound).1
    have hvalues := (rows_fit hne hrows hfits.clauses hshaped.filled).1
    exact readsBack_of_core rfl hfits hsound hn fun _ _ =>
      readsFrom_simple fun _ hends =>
        reads_rowQuery hne hrows hvalues hshaped.filled hshaped.even hends
  | @combined op l r hop all hl hr ihl ihr =>
    have hbelow := (Node.sound_select.mp hsound).2
    obtain ⟨-, -, left, right⟩ := id hfits
    refine readsBack_combined hop all hn hfits hsound ?_ ?_
    · exact ihl (left l rfl) (hbelow.left l rfl) (hl.pos (left l rfl) (hbelow.left l rfl))
    · exact ihr (right r rfl) (hbelow.right r rfl) (hr.pos (right r rfl) (hbelow.right r rfl))
  | @clauses s hcore htail hnames hqueries hctes ihcore ihctes =>
    have hshaped := (Node.sound_select.mp hsound).1
    have hbare := (ihcore hfits.core (sound_core hsound) hn).bare
    have hsteps : s.core.ReadsFrom moreCombined false n := hbare _ (.inl rfl)
    have hreadCtes : ∀ w ∈ s.ctes, ∀ c ∈ w.ctes,
        ∃ q, c.query = .select q ∧ q.ReadsBack (n - 1) := by
      intro w hw c hc
      obtain ⟨q, hq⟩ := hqueries w hw c hc
      obtain ⟨-, queries, -, -⟩ := id hfits
      have hfitsQuery := queries w hw c hc q hq
      have hsoundQuery := sound_cteQuery hsound hw hc hq
      exact ⟨q, hq, ihctes w hw c hc q hq hfitsQuery hsoundQuery
        ((hctes w hw c hc q hq).pos hfitsQuery hsoundQuery)⟩
    have hwithout (hw : s.ctes = none) (rest : List TokenKind) (hends : EndsQuery rest) :=
      reads_withoutWith hsteps htail hfits.clauses hn hshaped hw hends
    have hbehind (w : With) (hw : s.ctes = some w) (rest : List TokenKind) (hends : EndsQuery rest) :=
      reads_behindWith hsteps htail hfits.clauses hn hshaped hw (hnames w hw) (hreadCtes w hw) hends
    refine ⟨fun hw rest hends => (hwithout hw rest hends).2, hbehind, fun rest hends => ?_, hbare⟩
    cases hw : s.ctes with
    | none => exact (hwithout hw rest hends).1
    | some w =>
      obtain ⟨ts, ts₁, hts, hctes, -, hquery⟩ := hbehind w hw rest hends
      rw [hts]
      simp only [queryWithClauses, bind_eq, reads_acceptWord_bind, firstOf_cons, if_true,
        List.tail_cons]
      exact Parser.readsWith_bind hctes hquery

end Select

/-! ### Statements -/

namespace Grammar

/-- A query is a statement of its own.  Its common table expressions are read outside of the rule
for queries, so that rule may nest less deep only without them. -/
theorem reads_queryStatement (h : s.ReadsBack (n + 1)) (hone : s.ctes = none → s.ReadsBack n) :
    wholeStatement.ReadsWith (Rule.Within (n + 1)) (settle s.kinds) (.select s) [] := by
  have hends : EndsQuery [] := .inl rfl
  rw [← s.kinds.append_nil]
  have hstatement : statement.ReadsWith (Rule.Within (n + 1)) (settle (s.kinds ++ [])) (.select s)
      [] := by
    cases hw : s.ctes with
    | none =>
      have hstarts := (hone hw).starts hw [] hends
      have hquery : query.ReadsWith (Rule.Within (n + 1)) (settle (s.kinds ++ [])) s [] :=
        ⟨s, _, (hone hw).whole [] hends, rfl, rfl⟩
      simp only [statement, bind_eq, reads_kind_bind]
      unfold StartsSimple startsSimple at hstarts
      split at hstarts <;> first
        | (next heq => rw [heq]; exact Parser.readsWith_bind hquery ⟨rfl, rfl⟩)
        | cases hstarts
    | some w =>
      obtain ⟨ts, ts₁, hts, hctes, hstarts, hquery⟩ := h.behindWith w hw [] hends
      rw [hts]
      simp only [statement, statementAfterWith, bind_eq, reads_kind_bind, firstOf_cons,
        reads_skip_bind, List.tail_cons]
      refine Parser.readsWith_bind hctes ?_
      refine Parser.readsWith_bind (reads_change?_none (.inl hstarts)) ?_
      exact Parser.readsWith_bind hquery ⟨rfl, rfl⟩
  exact Parser.readsWith_bind hstatement ⟨rfl, rfl⟩

end Grammar

end SqlSyntax
