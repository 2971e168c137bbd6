import SqlSyntax.Proofs.Expression.Operands

/-!
# Reading calls back

A call is its dotted name and what stands in the parentheses behind it: a star, or
arguments that may have names, and an order for them.  The condition of an aggregate
follows the parentheses.

## Main results

* `reads_argument`, `reads_sortKey` — what the lists in a call consist of.
* `leads_call`, `leads_starCall`, `leads_fullCall` — **calls are read back.**
-/

namespace SqlSyntax

open Grammar

variable {depth : Nat} {rest : List TokenKind} {level : Level}
variable {R : (r : Rule) → List TokenKind → r.Result → List TokenKind → Prop}

namespace Grammar

open SqlSyntax.Parser (bind_eq Steps)

/-! ### Arguments -/

/-- The tokens of an argument that may have a name. -/
def argumentKinds (a : Option String × Node) : List TokenKind :=
  a.1.elim a.2.kinds fun s => nameKind s :: .equalsGreater :: a.2.kinds

theorem kinds_argument (a : Option String × Node) :
    (Node.argument a.1 a.2).kinds = argumentKinds a := by
  obtain ⟨name, arg⟩ := a
  cases name with
  | none => rfl
  | some s => simp [Node.argument, Node.kinds, Node.namedArg_pieces, argumentKinds]

theorem reads_argument {a : Option String × Node} (ha : a.2.Leads) (hrest : Follows 0 rest) :
    argument.Reads depth (settle (argumentKinds a ++ rest)) (Node.argument a.1 a.2) (settle rest) := by
  obtain ⟨name, arg⟩ := a
  have hread : Parser.Reads depth _ _ _ _ := Node.Leads.reads_expression ha hrest
  cases name with
  | none =>
    have hunnamed := (ha.starts (hrest.mono (Nat.zero_le _))).2
    simp only [argumentKinds, Option.elim_none, argument, bind_eq, reads_nextKind_bind]
    split
    · next heq =>
      rw [heq] at hunnamed
      cases hunnamed
    · next heq =>
      rw [heq] at hunnamed
      cases hunnamed
    · exact hread
  | some s =>
    have hname : callName.Reads depth _ s (settle (.equalsGreater :: (arg.kinds ++ rest))) :=
      reads_callName rfl
    have hsettle : settle (.equalsGreater :: (arg.kinds ++ rest))
        = TokenKind.equalsGreater :: settle (arg.kinds ++ rest) := by
      rw [settle_cons, before_eq rfl]
    simp only [argumentKinds, Option.elim_some, argument, bind_eq, reads_nextKind_bind,
      List.cons_append]
    rw [settle_cons, hsettle] at hname ⊢
    refine Parser.readsWith_bind hname ?_
    simp only [reads_skip_bind, List.tail_cons]
    exact Parser.readsWith_bind hread ⟨rfl, rfl⟩

/-- The first token of an argument as it is written. -/
theorem starts_argument {a : Option String × Node} (ha : a.2.Leads) (hrest : Follows 0 rest) :
    (firstOf (settle (argumentKinds a ++ rest))).opensOperand = true := by
  obtain ⟨name, arg⟩ := a
  cases name with
  | none => exact (ha.starts (hrest.mono (Nat.zero_le _))).1
  | some s =>
    rw [argumentKinds, Option.elim_some, List.cons_append, settle_cons, before_nameKind rfl]
    exact opensOperand_nameKind s

/-! ### Sort keys -/

/-- The tokens of a sort key. -/
def sortKeyKinds (k : SortKey) : List TokenKind :=
  k.key.kinds ++ (kindsOf k.direction.pieces ++ k.nulls.words.map .keyword)

theorem kindsOf_sortKeysPieces (ks : List SortKey) :
    (sortKeysPieces ks).map kindsOf = ks.map sortKeyKinds := by
  induction ks with
  | nil => rfl
  | cons k ks ih =>
    obtain ⟨key, direction, nulls⟩ := k
    rw [sortKeysPieces, List.map_cons, ih, List.map_cons, SortKey.pieces]
    simp [sortKeyKinds, Node.kinds]

/-- Whether a token may stand behind a list. -/
def endsList : TokenKind → Bool
  | .eof | .rightParen => true
  | k => continuesQuery k

/-- The tokens may stand behind a list: at the end of the text, of parentheses or of a
clause. -/
def EndsList (ts : List TokenKind) : Prop :=
  endsList (firstOf (settle ts)) = true

/-- The tokens may stand behind an item of a list: a comma, or what may stand behind the list. -/
def EndsItem (ts : List TokenKind) : Prop :=
  firstOf (settle ts) = .comma ∨ EndsList ts

theorem EndsList.item (h : EndsList rest) : EndsItem rest :=
  .inr h

theorem EndsList.ne (h : EndsList rest) {k : TokenKind} (hk : endsList k = false) :
    firstOf (settle rest) ≠ k := by
  intro heq
  rw [EndsList, heq, hk] at h
  cases h

theorem endsList_nil : EndsList [] := rfl

theorem endsList_rightParen (rest : List TokenKind) : EndsList (.rightParen :: rest) := rfl

theorem endsItem_comma (rest : List TokenKind) : EndsItem (.comma :: rest) :=
  .inl rfl

theorem EndsItem.ne (h : EndsItem rest) {k : TokenKind} (hk : endsList k = false)
    (hcomma : k ≠ .comma) : firstOf (settle rest) ≠ k :=
  h.elim (fun h heq => hcomma (heq.symm.trans h)) fun h => h.ne hk

/-- What stands behind a list ends an expression. -/
theorem endLevel_of_endsList {k : TokenKind} (h : endsList k = true) : k.endLevel = some 0 := by
  unfold endsList continuesQuery at h
  split at h
  · rfl
  · rfl
  · split at h <;> first | rfl | cases h

theorem EndsItem.follows (h : EndsItem rest) : Follows level rest := by
  refine ⟨0, Nat.zero_le _, ?_⟩
  obtain h | h := h
  · rw [h]
    rfl
  · exact endLevel_of_endsList h

theorem settle_nulls (nulls : NullsOrder) :
    settle (nulls.words.map .keyword ++ rest) = match nulls with
      | .unspecified => settle rest
      | .first => .nullsAhead :: .keyword .FIRST :: settle rest
      | .last => .nullsAhead :: .keyword .LAST :: settle rest := by
  cases nulls <;> simp [NullsOrder.words, aheadKind, TokenKind.keyword?]

theorem reads_optionalNulls (nulls : NullsOrder) (hends : EndsItem rest) :
    optionalNulls.ReadsWith R (settle (nulls.words.map .keyword ++ rest)) nulls (settle rest) := by
  rw [settle_nulls]
  cases nulls with
  | unspecified => simp [optionalNulls, hends.ne (k := .nullsAhead) rfl nofun]
  | first => simp [optionalNulls]
  | last => simp [optionalNulls]

theorem follows_nulls (nulls : NullsOrder) (hends : EndsItem rest) :
    Follows level (nulls.words.map .keyword ++ rest) := by
  cases nulls with
  | unspecified => exact hends.follows
  | first | last =>
    refine ⟨0, Nat.zero_le _, ?_⟩
    rw [settle_nulls]
    rfl

theorem reads_sortDirection {direction : SortDirection} (hd : direction.IsRead) (nulls : NullsOrder)
    (hends : EndsItem rest) :
    sortDirection.ReadsWith R
      (settle (kindsOf direction.pieces ++ (nulls.words.map .keyword ++ rest))) direction
      (settle (nulls.words.map .keyword ++ rest)) := by
  have hne : ∀ w : Keyword, w ∈ [Keyword.ASC, Keyword.DESC, Keyword.USING] →
      firstOf (settle (nulls.words.map TokenKind.keyword ++ rest)) ≠ TokenKind.keyword w := by
    intro w hw
    rw [settle_nulls]
    cases nulls with
    | unspecified =>
      refine hends.ne ?_ nofun
      simp only [List.mem_cons, List.not_mem_nil, or_false] at hw
      rcases hw with rfl | rfl | rfl <;> rfl
    | first | last => nofun
  have hasc := hne .ASC (by simp)
  have hdesc := hne .DESC (by simp)
  have husing := hne .USING (by simp)
  generalize nulls.words.map TokenKind.keyword ++ rest = ts at *
  cases direction with
  | unspecified => simp [SortDirection.pieces, sortDirection, optionalDirection, hasc, hdesc, husing]
  | asc => simp [SortDirection.pieces, sortDirection, optionalDirection]
  | desc => simp [SortDirection.pieces, sortDirection, optionalDirection]
  | byOperator op =>
    have hop : IsOperator op := hd
    have hsettle : settle (.keyword .USING :: operatorKind op :: ts)
        = TokenKind.keyword .USING :: operatorKind op :: settle ts := by
      rw [settle_cons, before_eq rfl, settle_cons, before_eq hop.isSettled]
    have hkinds : kindsOf (SortDirection.byOperator op).pieces
      = [TokenKind.keyword .USING, operatorKind op] :=
      rfl
    rw [hkinds, List.cons_append, List.singleton_append, hsettle]
    simp [sortDirection, optionalDirection, hop.spelled]

/-- A sort key is read back if its expression is. -/
theorem reads_sortKey {k : SortKey}
    (hkey : ∀ rest, Follows 0 rest →
      expression.ReadsWith R (settle (k.key.kinds ++ rest)) k.key (settle rest))
    (hd : k.direction.IsRead) (hends : EndsItem rest) :
    sortKey.ReadsWith R (settle (sortKeyKinds k ++ rest)) k (settle rest) := by
  obtain ⟨key, direction, nulls⟩ := k
  have hdirection : sortDirection.ReadsWith R _ _ _ := reads_sortDirection hd nulls hends
  have hnulls : optionalNulls.ReadsWith R _ _ _ := reads_optionalNulls nulls hends
  have hfollows : Follows 0 (kindsOf direction.pieces
    ++ (nulls.words.map TokenKind.keyword ++ rest)) := by
    cases direction with
    | unspecified => exact follows_nulls nulls hends
    | asc | desc | byOperator _ => exact follows_of_tailLevel rfl rfl (Nat.le_refl 0)
  rw [sortKeyKinds, List.append_assoc, List.append_assoc]
  refine Parser.readsWith_bind (hkey _ hfollows) ?_
  refine Parser.readsWith_bind hdirection ?_
  exact Parser.readsWith_bind hnulls ⟨rfl, rfl⟩

/-- The items of `ORDER BY` are read back, behind the first of these words. -/
theorem reads_sortKeys {order : List SortKey} (hne : order ≠ [])
    (hkeys : ∀ k ∈ order, ∀ rest, Follows 0 rest →
      expression.ReadsWith R (settle (k.key.kinds ++ rest)) k.key (settle rest))
    (hdirections : ∀ k ∈ order, k.direction.IsRead) (hends : EndsList rest) :
    (commaList sortKey).ReadsWith R (settle (commaKinds (order.map sortKeyKinds) ++ rest)) order
      (settle rest) := by
  obtain ⟨k, order, rfl⟩ := List.exists_cons_of_ne_nil hne
  rw [List.map_cons, commaKinds, List.append_assoc, List.flatMap_map]
  exact reads_commaList (p := EndsItem) endsItem_comma k order
    (fun a ha _ hends => reads_sortKey (hkeys a ha) (hdirections a ha) hends)
    hends.item (hends.ne rfl)

/-- The tokens of an `ORDER BY` clause. -/
def orderKinds (order : List SortKey) : List TokenKind :=
  if order.isEmpty then [] else .keyword .ORDER :: .keyword .BY :: commaKinds (order.map sortKeyKinds)

theorem kindsOf_order (order : List SortKey) :
    kindsOf (listClause [.ORDER, .BY] (sortKeysPieces order)) = orderKinds order := by
  rw [kindsOf_listClause, kindsOf_sortKeysPieces]
  cases order <;> rfl

theorem reads_optionalOrder {order : List SortKey} (hkeys : ∀ k ∈ order, k.key.Leads)
    (hdirections : ∀ k ∈ order, k.direction.IsRead) :
    optionalOrder.Reads depth (settle (orderKinds order ++ .rightParen :: rest)) order
      (settle (.rightParen :: rest)) := by
  cases order with
  | nil => exact reads_listAfter_nil nofun
  | cons k order =>
    have hlist : (commaList sortKey).Reads depth _ _ (settle (.rightParen :: rest)) :=
      reads_sortKeys (List.cons_ne_nil k order) (fun a ha _ hrest => (hkeys a ha).reads_expression hrest)
        hdirections (endsList_rightParen rest)
    have hsettle : ∀ ts, settle (.keyword .ORDER :: .keyword .BY :: ts)
        = TokenKind.keyword .ORDER :: .keyword .BY :: settle ts := fun ts => by simp
    rw [orderKinds, List.isEmpty_cons, if_neg Bool.false_ne_true, List.cons_append, List.cons_append,
      hsettle]
    refine reads_listAfter ?_
    simp only [sortKeys, bind_eq, reads_expectWord_bind, firstOf_cons, List.tail_cons, true_and]
    exact hlist

/-! ### Calls -/

/-- The tokens of the condition of an aggregate. -/
def filterKinds (filter : Option Node) : List TokenKind :=
  filter.elim [] fun f =>
    .keyword .FILTER :: .leftParen :: .keyword .WHERE :: (f.kinds ++ [.rightParen])

theorem reads_optionalFilter {filter : Option Node} (h : ∀ n ∈ filter, n.Leads)
    (hrest : Follows level rest) :
    optionalFilter.Reads depth (settle (filterKinds filter ++ rest)) filter (settle rest) := by
  cases filter with
  | none =>
    have hword : firstOf (settle rest) ≠ TokenKind.keyword .FILTER := by
      obtain ⟨l, -, hl⟩ := hrest
      intro heq
      rw [heq] at hl
      cases hl
    simp [filterKinds, optionalFilter, hword]
  | some f =>
    have hread : Parser.Reads depth _ _ _ _ := (h f rfl).reads_expression (follows_rightParen rest)
    have hsettle : ∀ ts, settle (.keyword .FILTER :: .leftParen :: .keyword .WHERE :: ts)
        = TokenKind.keyword .FILTER :: .leftParen :: .keyword .WHERE :: settle ts := fun ts => by
      simp [TokenKind.before]
    rw [filterKinds, Option.elim_some, List.cons_append, List.cons_append, List.cons_append, hsettle,
      List.append_assoc, List.singleton_append]
    simp only [optionalFilter, bind_eq, reads_isAtWord_bind, firstOf_cons, decide_true, if_true,
      reads_isBefore_bind, secondOf_cons, reads_skip_bind, List.tail_cons, reads_expectWord_bind,
      true_and]
    refine Parser.readsWith_bind hread ?_
    rw [settle_paren (by simp)]
    simp

/-- A call is read back if what stands in its parentheses is. -/
theorem leads_callBody {function : List String} (hne : function ≠ []) {filter : Option Node}
    (hfilter : ∀ n ∈ filter, n.Leads) {inner : List TokenKind} {c : Call}
    (hc : c.window = none)
    (h : ∀ depth rest, (callBody function).Reads depth (settle (inner ++ .rightParen :: rest)) c
      (settle (.rightParen :: rest))) :
    Leads (dottedKinds function ++ .leftParen :: (inner ++ .rightParen :: filterKinds filter)) level
      (.call { c with filter := filter }) := by
  cases function with
  | nil => exact absurd rfl hne
  | cons s names =>
    refine Leads.operand fun depth rest hrest => ?_
    have hfilter : optionalFilter.Reads depth _ _ _ := reads_optionalFilter hfilter hrest
    have hover : firstOf (settle rest) ≠ TokenKind.keyword .OVER := by
      obtain ⟨l, -, hl⟩ := hrest
      intro heq
      rw [heq] at hl
      cases hl
    have hcall : (call (s :: names)).Reads depth
        (.leftParen :: settle (inner ++ TokenKind.rightParen :: (filterKinds filter ++ rest)))
        { c with filter := filter } (settle rest) := by
      refine Parser.readsWith_bind (reads_parenthesized (h depth (filterKinds filter ++ rest))) ?_
      refine Parser.readsWith_bind hfilter ?_
      refine Parser.readsWith_bind (reads_after_none hover) ?_
      obtain ⟨function, args, order, filter, window, star, distinct, form⟩ := c
      obtain rfl : window = none := hc
      exact ⟨rfl, rfl⟩
    generalize hts : inner ++ TokenKind.rightParen :: (filterKinds filter ++ rest) = ts at hcall
    have hsteps : Steps (Rule.Reads depth) morePath _ _ _ (settle (.leftParen :: ts)) :=
      steps_morePath [s] names false rfl nofun
    have hneutral : (firstOf (pathKinds names false ++ TokenKind.leftParen :: ts)).isNeutral
      = true :=
      isNeutral_pathKinds names false rfl
    have hnext : firstOf (settle (pathKinds names false ++ TokenKind.leftParen :: ts))
      = TokenKind.leftParen
        ∨ firstOf (settle (pathKinds names false ++ TokenKind.leftParen :: ts))
          = TokenKind.dot := by
      cases names with
      | nil => exact .inl rfl
      | cons s names => exact .inr rfl
    have hreads : leftOperand.Reads depth
        (settle (nameKind s :: (pathKinds names false ++ TokenKind.leftParen :: ts)))
        (.call { c with filter := filter }) (settle rest) := by
      refine reads_named hneutral (by rcases hnext with h | h <;> rw [h] <;> nofun) ?_
      refine Parser.readsWith_bind hsteps.reads ?_
      simp only [Bool.false_eq_true, if_false, List.reverse_append, List.reverse_singleton,
        List.reverse_reverse, List.singleton_append, bind_eq, reads_kind_bind]
      rw [settle_cons, before_eq rfl]
      exact Parser.readsWith_bind hcall ⟨rfl, rfl⟩
    have hkinds : dottedKinds (s :: names)
      ++ TokenKind.leftParen :: (inner ++ TokenKind.rightParen :: filterKinds filter)
        ++ rest = nameKind s :: (pathKinds names false ++ TokenKind.leftParen :: ts) := by
      simp [dottedKinds, pathKinds, ← hts]
    rw [hkinds]
    rw [settle_cons, before_nameKind hneutral] at hreads ⊢
    refine startsWith_token (opensOperand_nameKind s) (nameKind_ne_leftParen s) ?_ hreads
    rcases hnext with h | h <;> rw [h] <;> rfl

/-- What stands in the parentheses of a call, as it is written. -/
def insidePieces (args : List Node) (order : List SortKey) (star distinct : Bool) : List Piece :=
  if star then [.mark .star]
  else wordsIf distinct [.DISTINCT] ++ commas (args.map Node.pieces)
    ++ listClause [.ORDER, .BY] (sortKeysPieces order)

/-- A call without a window and without a syntax of its own as it is written. -/
theorem pieces_call (function : List String) (args : List Node) (order : List SortKey)
    (filter : Option Node) (star distinct : Bool) :
    (Node.call ⟨function, args, order, filter, none, star, distinct, .regular⟩).pieces
      = dotted function ++ parens (insidePieces args order star distinct)
        ++ optionalClause [.FILTER]
          (filter.map fun f => parens (.word .WHERE :: .gap :: f.pieces)) := by
  rw [Node.call_pieces, Call.pieces, if_neg (by simp), overPieces, List.append_nil, insidePieces, operands_eq,
    List.map_map]
  cases filter <;> rfl

/-- A call without arguments. -/
theorem leads_call {function : List String} (hne : function ≠ []) {filter : Option Node}
    (hfilter : ∀ n ∈ filter, n.Leads) :
    (Node.call { function := function, args := [], filter := filter }).Leads := by
  have hkinds : (Node.call { function := function, args := [], filter := filter }).kinds
      = dottedKinds function ++ TokenKind.leftParen
        :: ([] ++ TokenKind.rightParen :: filterKinds filter) := by
    rw [Node.kinds, pieces_call]
    cases filter <;> simp [insidePieces, filterKinds, sortKeysPieces, Node.kinds, wordsIf, commaKinds]
  rw [Node.Leads, hkinds]
  exact leads_callBody hne hfilter (c := { function := function, args := [] }) rfl
    fun depth rest => by simp [callBody, TokenKind.before]

/-- A call with a star. -/
theorem leads_starCall {function : List String} (hne : function ≠ []) {filter : Option Node}
    (hfilter : ∀ n ∈ filter, n.Leads) :
    (Node.call { function := function, args := [], filter := filter, star := true }).Leads := by
  have hkinds : (Node.call
      { function := function, args := [], filter := filter, star := true }).kinds
      = dottedKinds function ++ TokenKind.leftParen
        :: ([TokenKind.star] ++ TokenKind.rightParen :: filterKinds filter) := by
    rw [Node.kinds, pieces_call]
    cases filter <;> simp [insidePieces, filterKinds, Node.kinds]
  rw [Node.Leads, hkinds]
  exact leads_callBody hne hfilter (c := { function := function, args := [], star := true }) rfl
    fun depth rest => by simp [callBody, TokenKind.before]

/-- A call with arguments. -/
theorem leads_fullCall {function : List String} (hne : function ≠ []) {filter : Option Node}
    (hfilter : ∀ n ∈ filter, n.Leads) {args : List (Option String × Node)} (hsome : args ≠ [])
    (hargs : ∀ a ∈ args, a.2.Leads) {order : List SortKey} (hkeys : ∀ k ∈ order, k.key.Leads)
    (hdirections : ∀ k ∈ order, k.direction.IsRead) (distinct : Bool) :
    (Node.call (Call.full function args order filter distinct)).Leads := by
  have hkinds : (Node.call (Call.full function args order filter distinct)).kinds
      = dottedKinds function ++ TokenKind.leftParen
        :: (((if distinct then [TokenKind.keyword .DISTINCT] else [])
        ++ (commaKinds (args.map argumentKinds) ++ orderKinds order))
        ++ TokenKind.rightParen :: filterKinds filter) := by
    have hargsKinds : commaKinds (args.map argumentKinds)
        = kindsOf (commas ((args.map fun a => Node.argument a.1 a.2).map Node.pieces)) := by
      rw [kindsOf_commas, List.map_map, List.map_map]
      exact congrArg commaKinds (List.map_congr_left fun a _ => (kinds_argument a).symm)
    rw [Node.kinds, Call.full, pieces_call, hargsKinds, ← kindsOf_order]
    cases filter <;> cases distinct <;> simp [insidePieces, filterKinds, Node.kinds]
  rw [Node.Leads, hkinds]
  refine leads_callBody hne hfilter (c := Call.full function args order none distinct) rfl
    fun depth rest => ?_
  have horder : optionalOrder.Reads depth _ _ (settle (.rightParen :: rest)) :=
    reads_optionalOrder hkeys hdirections
  have hfollows : Follows 0 (orderKinds order ++ TokenKind.rightParen :: rest) := by
    cases order with
    | nil => exact follows_rightParen _
    | cons k order => exact follows_of_tailLevel rfl rfl (Nat.le_refl 0)
  have hopens : (firstOf (settle (commaKinds (args.map argumentKinds)
      ++ (orderKinds order ++ TokenKind.rightParen :: rest)))).opensOperand = true := by
    cases args with
    | nil => exact absurd rfl hsome
    | cons a args =>
      rw [List.map_cons, commaKinds, List.append_assoc]
      refine starts_argument (hargs a List.mem_cons_self) ?_
      cases args with
      | nil => exact hfollows
      | cons b args => exact follows_comma _
  have hlist : (commaList argument).Reads depth
      (settle (commaKinds (args.map argumentKinds)
        ++ (orderKinds order ++ TokenKind.rightParen :: rest)))
      (args.map fun a => Node.argument a.1 a.2)
      (settle (orderKinds order ++ TokenKind.rightParen :: rest)) := by
    have hcomma : firstOf (settle (orderKinds order
      ++ TokenKind.rightParen :: rest)) ≠ TokenKind.comma := by
      cases order with
      | nil => exact rightParen_ne_comma rest
      | cons k order => simp [orderKinds]
    cases args with
    | nil => exact absurd rfl hsome
    | cons a args =>
      have hread : ∀ n ∈ (a :: args).map (fun a => Node.argument a.1 a.2), ∀ rest, Follows 0 rest →
          argument.Reads depth (settle (n.kinds ++ rest)) n (settle rest) := by
        intro n hn rest hrest
        obtain ⟨b, hb, rfl⟩ := List.mem_map.mp hn
        rw [kinds_argument]
        exact reads_argument (hargs b hb) hrest
      have hlist := reads_commaList (p := Follows 0) (fun _ => follows_comma _) _ _ hread hfollows hcomma
      rw [List.map_cons, commaKinds, List.append_assoc, List.flatMap_map, ← kinds_argument]
      simpa [List.flatMap_map, kinds_argument] using hlist
  have hargs : (do
      let args ← commaList argument
      return ({
        function := function
        args := args
        distinct := distinct
        order := ← optionalOrder } : Call) : Parser Call).Reads depth
      (settle (commaKinds (args.map argumentKinds)
        ++ (orderKinds order ++ TokenKind.rightParen :: rest)))
      (Call.full function args order none distinct) (settle (.rightParen :: rest)) := by
    refine Parser.readsWith_bind hlist ?_
    exact Parser.readsWith_bind horder ⟨rfl, rfl⟩
  rw [List.append_assoc, List.append_assoc]
  cases distinct with
  | true =>
    rw [if_pos rfl, List.singleton_append, settle_cons, before_eq rfl]
    simpa [callBody, distinctOrAll] using hargs
  | false =>
    rw [if_neg Bool.false_ne_true, List.nil_append]
    have hstar := opensOperand_ne hopens .star rfl
    have hparen := opensOperand_ne hopens .rightParen rfl
    have hdistinct := opensOperand_ne hopens (.keyword .DISTINCT) rfl
    have hall := opensOperand_ne hopens (.keyword .ALL) rfl
    simpa [callBody, distinctOrAll, hstar, hparen, hdistinct, hall] using hargs

end Grammar

end SqlSyntax
