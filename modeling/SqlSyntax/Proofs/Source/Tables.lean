import SqlSyntax.Proofs.Query.Readback

/-!
# Reading tables back

A table among the items of `FROM` is read from its own tokens, with the name behind it.  What stands behind an item is no name, so a missing name is not made up.

## Main definitions

* `EndsSource` — what may stand behind an item of `FROM`.
* `StartsSource` — how an item starts.
* `labelKinds` — the tokens of the name of an item.

## Main results

* `reads_optionalAlias` — names of items are read back.
* `reads_table` — **tables are read back.**
-/

namespace SqlSyntax

open Grammar

variable {n : Nat} {rest ts : List TokenKind} {t : TableRef} {label : Option Alias} {es : List Node}
variable {R : (r : Rule) → List TokenKind → r.Result → List TokenKind → Prop}

/-! ### Around an item -/

/-- Whether a token may stand behind an item of `FROM`: another item, a join, or what may stand
behind all items. -/
def endsSource : TokenKind → Bool
  | .comma | .keyword .NATURAL | .keyword .CROSS | .keyword .JOIN | .keyword .LEFT
  | .keyword .RIGHT | .keyword .FULL | .keyword .ON | .keyword .USING => true
  | k => endsList k

/-- The tokens may stand behind an item of `FROM`. -/
def EndsSource (ts : List TokenKind) : Prop :=
  endsSource (firstOf (settle ts)) = true

theorem EndsSource.ne (h : EndsSource rest) {k : TokenKind} (hk : endsSource k = false) :
    firstOf (settle rest) ≠ k := by
  intro heq
  rw [EndsSource, heq, hk] at h
  cases h

theorem Grammar.EndsItem.source (h : EndsItem rest) : EndsSource rest := by
  unfold EndsSource
  obtain h | h := h
  · rw [h]
    rfl
  · unfold endsSource
    split <;> first | rfl | exact h

/-- What stands behind an item ends an expression. -/
theorem EndsSource.follows {level : Level} (h : EndsSource rest) : Follows level rest := by
  refine ⟨0, Nat.zero_le _, ?_⟩
  unfold EndsSource endsSource at h
  split at h <;> first
    | (next heq => rw [heq]; rfl)
    | exact endLevel_of_endsList h

/-- What stands behind an item is no name. -/
theorem EndsSource.isName_eq (h : EndsSource rest) : isName (firstOf (settle rest)) = false := by
  unfold EndsSource endsSource endsList continuesQuery at h
  repeat' split at h
  all_goals first
    | (next heq => rw [heq]; rfl)
    | cases h

/-- The tokens start with an item of `FROM`. -/
def StartsSource (ts : List TokenKind) : Prop :=
  (firstOf ts).opensOperand = true ∨ firstOf ts = .keyword .ONLY

theorem StartsSource.ne (h : StartsSource ts) {k : TokenKind} (hk : k.opensOperand = false)
    (hne : k ≠ .keyword .ONLY) : firstOf ts ≠ k := by
  rintro rfl
  rcases h with h | h
  · rw [hk] at h
    cases h
  · exact hne h

/-- An item is no query. -/
theorem StartsSource.startsQuery_eq (h : StartsSource ts) : startsQuery (firstOf ts) = false := by
  unfold startsQuery
  split <;> first
    | (next heq => exact absurd heq (h.ne rfl nofun))
    | rfl

/-- A dotted name starts with a name. -/
theorem exists_firstOf_dotted {names : List String} (hne : names ≠ [])
    (hneutral : (firstOf rest).isNeutral = true) :
    ∃ s, firstOf (settle (dottedKinds names ++ rest)) = nameKind s := by
  obtain ⟨s, names, rfl⟩ := List.exists_cons_of_ne_nil hne
  refine ⟨s, ?_⟩
  rw [dottedKinds, List.cons_append, settle_cons, firstOf_cons,
    before_nameKind (isNeutral_labels names hneutral)]

/-! ### Names of items -/

/-- The tokens of the name of an item. -/
def labelKinds (label : Option Alias) : List TokenKind :=
  kindsOf (labelPieces label)

theorem labelKinds_some (a : Alias) : labelKinds (some a)
    = .keyword .AS :: nameKind a.name :: kindsOf (nameListIfAny [] a.columns) := by
  simp [labelKinds, labelPieces, Alias.pieces]

/-- What stands behind the name of an item ends an expression, and so does the name. -/
theorem follows_label {level : Level} (label : Option Alias) (h : EndsSource rest) :
    Follows level (labelKinds label ++ rest) := by
  cases label with
  | none => exact h.follows
  | some a =>
    rw [labelKinds_some]
    exact follows_of_tailLevel rfl rfl (Nat.zero_le _)

namespace Grammar

open SqlSyntax.Parser (bind_eq Steps)

/-- The name of an item is read back, also if there is none. -/
theorem reads_optionalAlias (label : Option Alias) (h : EndsSource rest) :
    optionalAlias.ReadsWith R (settle (labelKinds label ++ rest)) label (settle rest) := by
  cases label with
  | none =>
    have has : firstOf (settle rest) ≠ .keyword .AS := h.ne rfl
    simp [labelKinds, labelPieces, optionalAlias, has, h.isName_eq]
  | some a =>
    have hneutral : (firstOf (kindsOf (nameListIfAny [] a.columns) ++ rest)).isNeutral = true := by
      cases a.columns with
      | nil =>
        have hfollows : Follows 0 rest := h.follows
        exact hfollows.isNeutral
      | cons s columns => rfl
    rw [labelKinds_some, List.cons_append, List.cons_append, settle_cons, before_eq rfl]
    simp only [optionalAlias, bind_eq, reads_acceptWord_bind, firstOf_cons, if_true, List.tail_cons,
      reads_kind_bind, Bool.true_or]
    refine Parser.readsWith_bind (reads_name hneutral) ?_
    exact Parser.readsWith_bind (reads_optionalNameList a.columns (h.ne rfl)) ⟨rfl, rfl⟩

/-! ### Tables -/

/-- The tokens of a table. -/
def tableKinds (t : TableRef) : List TokenKind :=
  (if t.only then [.keyword .ONLY] else []) ++ (dottedKinds t.names ++ labelKinds t.label)

theorem kinds_table (t : TableRef) : (Node.table t).kinds = tableKinds t := by
  simp [Node.kinds, Node.table_pieces, TableRef.pieces, tableKinds, labelKinds]

/-- A table starts with a name, or with the word in front of it. -/
theorem firstOf_table (h : EndsSource rest) :
    (∃ s, firstOf (settle ((Node.table t).kinds ++ rest)) = nameKind s) ∨
      firstOf (settle ((Node.table t).kinds ++ rest)) = .keyword .ONLY := by
  have hfollows : Follows 0 (labelKinds t.label ++ rest) := follows_label t.label h
  rw [kinds_table, tableKinds]
  cases t.only with
  | false =>
    refine .inl ?_
    rw [if_neg Bool.false_ne_true, List.nil_append, List.append_assoc]
    exact exists_firstOf_dotted t.names_ne_nil hfollows.isNeutral
  | true => exact .inr rfl

theorem starts_table (h : EndsSource rest) : StartsSource (settle ((Node.table t).kinds ++ rest)) := by
  refine (firstOf_table h).imp_left ?_
  rintro ⟨s, hs⟩
  rw [hs]
  exact opensOperand_nameKind s

/-- The name of a table is read back behind `ONLY`, where it needs no parentheses. -/
theorem reads_onlyTableName (ht : t.IsRead) (hrest : Follows 0 rest) :
    onlyTableName.ReadsWith R (settle (dottedKinds t.names ++ rest))
      { t with only := false, label := none } (settle rest) := by
  obtain ⟨s, hs⟩ := exists_firstOf_dotted t.names_ne_nil hrest.isNeutral
  simp only [onlyTableName, bind_eq, reads_isAt_bind, hs, nameKind_ne_leftParen, decide_false,
    Bool.false_eq_true, if_false]
  exact reads_tableName ht hrest.isNeutral (hrest.ne rfl)

/-- A table is read back from its dotted name, with the name behind it. -/
theorem reads_namedItem (ht : t.IsRead) (honly : t.only = false) (h : EndsSource rest) :
    (namedItem false).ReadsWith R (settle (dottedKinds t.names ++ (labelKinds t.label ++ rest)))
      (.table t) (settle rest) := by
  have hfollows : Follows 0 (labelKinds t.label ++ rest) := follows_label t.label h
  have hparen : firstOf (settle (labelKinds t.label ++ rest)) ≠ .leftParen := hfollows.ne rfl
  have hstar : firstOf (settle (labelKinds t.label ++ rest)) ≠ .star := hfollows.ne rfl
  have hsame : ({ t with only := false, label := t.label } : TableRef) = t := by rw [← honly]
  simp only [namedItem, bind_eq, reads_index_bind]
  intro _
  refine Parser.readsWith_bind (reads_dottedName t.names_ne_nil hfollows.isNeutral (hfollows.ne rfl)) ?_
  simp only [reads_isAt_bind, hparen, decide_false, Bool.false_eq_true, if_false, tableOfNames, ht.whole,
    Parser.pure_eq, reads_done_bind, skipStar, bind_eq, reads_bind_bind, reads_accept_bind, hstar]
  refine Parser.readsWith_bind (reads_optionalAlias t.label h) ?_
  exact ⟨congrArg Node.table hsame, rfl⟩

/-- A table is read back. -/
theorem reads_table (ht : t.IsRead) (h : EndsSource rest) :
    sourcePrimary.ReadsWith R (settle ((Node.table t).kinds ++ rest)) (.table t) (settle rest) := by
  have hfirst := firstOf_table (t := t) h
  have hlateral : firstOf (settle ((Node.table t).kinds ++ rest)) ≠ .keyword .LATERAL :=
    (starts_table h).ne rfl nofun
  have hparen : firstOf (settle ((Node.table t).kinds ++ rest)) ≠ .leftParen := by
    rcases hfirst with ⟨s, hs⟩ | hs <;> rw [hs]
    · exact nameKind_ne_leftParen s
    · nofun
  simp only [sourcePrimary, plainItem, bind_eq, reads_acceptWord_bind, hlateral, if_false,
    reads_isAt_bind, hparen, decide_false, Bool.false_eq_true]
  have hfollows : Follows 0 (labelKinds t.label ++ rest) := follows_label t.label h
  rw [kinds_table, tableKinds, List.append_assoc, List.append_assoc]
  cases honly : t.only with
  | true =>
    have hsame : ({ t with only := true, label := t.label } : TableRef) = t := by rw [← honly]
    rw [if_pos rfl, List.singleton_append, settle_cons, before_eq rfl]
    simp only [firstOf_cons, if_true, List.tail_cons, onlyTable, bind_eq]
    refine Parser.readsWith_bind (reads_onlyTableName ht hfollows) ?_
    refine Parser.readsWith_bind (reads_optionalAlias t.label h) ?_
    exact ⟨congrArg Node.table hsame, rfl⟩
  | false =>
    obtain ⟨s, hs⟩ := exists_firstOf_dotted t.names_ne_nil hfollows.isNeutral
    have hword : nameKind s ≠ .keyword .ONLY := opensOperand_ne (opensOperand_nameKind s) _ rfl
    rw [if_neg Bool.false_ne_true, List.nil_append, hs, if_neg hword]
    exact reads_namedItem ht honly h

end Grammar

end SqlSyntax
