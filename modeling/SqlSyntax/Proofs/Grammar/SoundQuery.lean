import SqlSyntax.Grammar.Enclosed
import SqlSyntax.Proofs.Grammar.SoundChange

/-!
# The shape of queries

A query is built in several steps: it may be read in parentheses, combined with others
and given its clauses afterwards.  On the way it has the shape of a query that is being
built; the last step makes sure that rows which equal the last one have an order.

## Main definitions

* `Select.Growing` — a query that is being built, with sound parts.

## Main results

* `combined_growing`, `moreClauses_growing` — the steps that build a query.
* `tail_sound` — a query has its shape when all clauses have been read.
* `queryWithClauses_sound`, `enclosed_sound`, `enclosedSource_sound` — **queries and
  parentheses have their shape.**
-/

namespace SqlSyntax

/-! ### Queries that are being built -/

/-- A query that may still get clauses. -/
structure Select.Growing (s : Select) : Prop where
  built : s.Built
  below : s.SoundBelow

theorem Select.growing_of_sound {s : Select} (h : (Node.select s).Sound) : s.Growing := by
  obtain ⟨hshape, hbelow⟩ := Node.sound_select.mp h
  exact ⟨hshape.toBuilt, hbelow⟩

/-- A query without a further one and without a limit has the shape of its rows. -/
theorem Select.built_alone {s : Select} (hop : s.op = .none) (hleft : s.left = none)
    (hright : s.right = none) (hfilled : ∀ r ∈ s.rows, r ≠ [])
    (heven : ∀ r ∈ s.rows, ∀ r' ∈ s.rows, r.length = r'.length)
    (hstyle : s.limitStyle = .unlimited) (hlimit : s.limit = none) : s.Built where
  combined := by
    constructor
    · exact fun h => absurd hop h
    · rw [hleft]
      exact fun h => absurd h.1 Bool.false_ne_true
  alone _ := ⟨hleft, hright⟩
  bare h := absurd hop h
  filled := hfilled
  even := heven
  limited := by
    rw [hlimit]
    exact ⟨fun h => absurd hstyle h, fun h => absurd h Bool.false_ne_true⟩

/-- Two queries combined have no clauses of their own. -/
theorem Select.combined_growing {op : SetOp} (hop : op ≠ .none) (all : Bool)
    {left right : Select} (hleft : (Node.select left).Sound) (hright : (Node.select right).Sound) :
    (Select.combined op all left right).Growing where
  built := {
    combined := ⟨fun _ => ⟨rfl, rfl⟩, fun _ => hop⟩
    alone := fun h => absurd h hop
    bare := fun _ => ⟨rfl, rfl, rfl, rfl, rfl, rfl, rfl, rfl⟩
    filled := nofun
    even := nofun
    limited := ⟨fun h => absurd rfl h, fun h => absurd h Bool.false_ne_true⟩ }
  below := {
    ctes := nofun
    distinct := nofun
    targets := nofun
    sources := nofun
    condition := nofun
    groups := nofun
    having := nofun
    windows := nofun
    rows := nofun
    left := forall_mem_some hleft
    right := forall_mem_some hright
    order := nofun
    offset := nofun
    limit := nofun }

/-- A query that was just combined, or read without a limit, has no ties. -/
theorem Select.Growing.sound {s : Select} (h : s.Growing)
    (hties : s.limitStyle = .withTies → s.order ≠ []) : (Node.select s).Sound :=
  Node.sound_select.mpr ⟨{ h.built with ties := hties }, h.below⟩

namespace Grammar

open SqlSyntax.Parser

/-! ### Simple queries -/

theorem optionalDistinct_sound :
    optionalDistinct.Yields soundly fun o => ∀ n ∈ o.getD [], n.Sound := by
  unfold optionalDistinct
  apply yields_bind_any
  intro found
  apply yields_ite
  · intro _
    have hkeys : distinctKeys.Yields soundly fun ns => ∀ n ∈ ns, n.Sound := by
      unfold distinctKeys
      apply yields_bind_any
      intro on
      apply yields_ite
      · exact fun _ => yields_parenthesized expressions_mem_sound
      · exact fun _ => yields_pure (List.forall_mem_nil _)
    apply hkeys.bind
    exact fun ns hns => yields_pure hns
  · intro _
    apply yields_bind_any
    exact fun _ => yields_pure nofun

theorem outputColumns_sound :
    outputColumns.Yields soundly fun ts => ∀ t ∈ ts, (Node.target t).Sound := by
  unfold outputColumns
  apply yields_bind_any
  intro k
  apply yields_ite
  · exact fun _ => yields_pure (List.forall_mem_nil _)
  · exact fun _ => yields_commaList_mem outputColumn_sound

theorem windowDefinition_sound :
    windowDefinition.Yields soundly fun w => (Node.window w).Sound := by
  unfold windowDefinition
  apply yields_bind_any
  intro s
  apply yields_bind_any
  intro _
  apply windowInParens_sound.bind
  intro w hw
  obtain ⟨hpartition, horder, hframe⟩ := Node.sound_window.mp hw
  exact yields_pure (Node.sound_window.mpr ⟨hpartition, horder, hframe⟩)

theorem selection_sound : selection.Yields soundly fun s => (Node.select s).Sound := by
  unfold selection
  apply optionalDistinct_sound.bind
  intro distinct hdistinct
  apply outputColumns_sound.bind
  intro targets htargets
  apply (yields_listAfter .FROM sources_sound).bind
  intro items hitems
  apply optionalCondition_sound.bind
  intro condition hcondition
  apply (yields_listAfter .GROUP (p := groupKeys) ?_).bind
  · intro groups hgroups
    apply (yields_after .HAVING expression_sound).bind
    intro having hhaving
    apply (yields_listAfter .WINDOW (yields_commaList_mem windowDefinition_sound)).bind
    intro windows hwindows
    apply yields_pure
    refine Node.sound_select.mpr ⟨{ Select.built_alone rfl rfl rfl (List.forall_mem_nil _)
      (List.forall_mem_nil _) rfl rfl with ties := nofun }, ?_⟩
    exact ⟨nofun, hdistinct, htargets, hitems, hcondition, hgroups, hhaving, hwindows, nofun,
      nofun, nofun, nofun, nofun, nofun⟩
  · unfold groupKeys
    apply yields_bind_any
    exact fun _ => expressions_mem_sound

theorem sameLength_eq {α : Type} {rs : List (List α)} (h : sameLength rs = true) :
    ∀ r ∈ rs, ∀ r' ∈ rs, r.length = r'.length := by
  match rs, h with
  | [], _ => exact nofun
  | r₀ :: rs, h =>
    have hfirst : ∀ r ∈ r₀ :: rs, r.length = r₀.length := by
      refine List.forall_mem_cons.mpr ⟨rfl, fun r hr => ?_⟩
      exact beq_iff_eq.mp (List.all_eq_true.mp h r hr)
    intro r hr r' hr'
    exact (hfirst r hr).trans (hfirst r' hr').symm

/-- Rows of values are not empty and as long as each other. -/
theorem rows_sound : rows.Yields soundly fun s => (Node.select s).Sound := by
  unfold rows
  apply yields_bind_any
  intro first
  apply yields_bind_any
  intro _
  have hrow : row.Yields soundly fun r => r ≠ [] ∧ ∀ n ∈ r, n.Sound :=
    yields_parenthesized (yields_commaList valueOrDefault_sound)
  apply (yields_commaList_mem hrow).bind
  intro rs hrs
  apply yields_ite
  · intro hsame
    apply yields_pure
    refine Node.sound_select.mpr ⟨{ Select.built_alone rfl rfl rfl (fun r hr => (hrs r hr).1)
      (sameLength_eq hsame) rfl rfl with ties := nofun }, ?_⟩
    exact ⟨nofun, nofun, nofun, nofun, nofun, nofun, nofun, nofun, fun r hr => (hrs r hr).2,
      nofun, nofun, nofun, nofun, nofun⟩
  · exact fun _ => yields_refuseSince _ _

/-! ### Combinations -/

theorem simpleQuery_sound : simpleQuery.Yields soundly fun s => (Node.select s).Sound := by
  unfold simpleQuery
  apply yields_bind_any
  intro k
  split
  · apply yields_bind_any
    exact fun _ => selection_sound
  · exact rows_sound
  · exact yields_parenthesized query_sound
  · exact yields_unexpected _

theorem combinedWith_sound {op : SetOp} (hop : op ≠ .none) {left : Select}
    (hleft : (Node.select left).Sound) {right : Parser Select}
    (hright : right.Yields soundly fun s => (Node.select s).Sound) :
    (combinedWith op left right).Yields soundly fun s => (Node.select s).Sound := by
  unfold combinedWith
  apply yields_bind_any
  intro all
  apply hright.bind
  intro s hs
  exact yields_pure ((Select.combined_growing hop all hleft hs).sound nofun)

theorem intersection_sound : intersection.Yields soundly fun s => (Node.select s).Sound := by
  unfold intersection
  apply simpleQuery_sound.bind
  intro s hs
  apply yields_iterate (P := fun s => (Node.select s).Sound) hs
  intro left hleft
  unfold moreIntersected
  apply yields_bind_any
  intro found
  apply yields_ite
  · intro _
    apply (combinedWith_sound (by decide) hleft simpleQuery_sound).bind
    exact fun s hs => yields_pure (forall_mem_some hs)
  · exact fun _ => yields_pure forall_mem_none

theorem ofWord?_ne_none {w : Option Keyword} {op : SetOp}
    (h : w.bind SetOp.ofWord? = some op) : op ≠ .none := by
  obtain ⟨w, -, hw⟩ := Option.bind_eq_some_iff.mp h
  unfold SetOp.ofWord? at hw
  split at hw <;> cases hw <;> decide

theorem combinationOf_sound {first : Select} (hfirst : (Node.select first).Sound) :
    (combinationOf first).Yields soundly fun s => (Node.select s).Sound := by
  unfold combinationOf
  apply yields_iterate (P := fun s => (Node.select s).Sound) hfirst
  intro left hleft
  unfold moreCombined
  apply yields_bind_any
  intro k
  split
  · exact yields_pure forall_mem_none
  · next op hop =>
    apply yields_bind_any
    intro _
    have hsecond : (secondQuery op).Yields soundly fun s => (Node.select s).Sound := by
      cases op with
      | intersect => exact simpleQuery_sound
      | none | union | except => exact intersection_sound
    apply (combinedWith_sound (ofWord?_ne_none hop) hleft hsecond).bind
    exact fun s hs => yields_pure (forall_mem_some hs)

theorem combination_sound : combination.Yields soundly fun s => (Node.select s).Sound := by
  unfold combination
  apply simpleQuery_sound.bind
  exact fun s hs => combinationOf_sound hs

/-! ### Clauses behind a query -/

theorem queryOrder_growing {s : Select} (hs : s.Growing) :
    (queryOrder s).Yields soundly Select.Growing := by
  unfold queryOrder
  apply yields_bind_any
  intro first
  apply yields_bind_any
  intro found
  apply yields_ite
  · intro _
    apply yields_bind_any
    intro _
    apply yields_ite
    · intro _
      apply (yields_commaList_mem sortKey_sound).bind
      intro order horder
      exact yields_pure ⟨{ hs.built with }, { hs.below with order := horder }⟩
    · exact fun _ => yields_fail _
  · exact fun _ => yields_pure hs

theorem limit_growing (first : Nat) {s : Select} (hs : s.Growing) :
    (limit first s).Yields soundly Select.Growing := by
  have hcount : limitCount.Yields soundly Node.Sound := by
    unfold limitCount
    apply yields_bind_any
    intro all
    apply yields_ite
    · exact fun _ => yields_pure (Node.sound_const _)
    · exact fun _ => expression_sound
  unfold limit
  apply yields_ite
  · exact fun _ => yields_fail _
  · intro _
    apply hcount.bind
    intro count hcount
    apply yields_bind_any
    intro comma
    apply yields_ite
    · intro _
      apply yields_bind_any
      exact fun _ => yields_fail _
    · intro _
      apply yields_pure
      refine ⟨{ hs.built with limited := ?_ }, { hs.below with limit := forall_mem_some hcount }⟩
      exact ⟨fun _ => rfl, fun _ => (by decide : LimitStyle.count ≠ .unlimited)⟩

theorem offset_growing (first : Nat) {s : Select} (hs : s.Growing) :
    (offset first s).Yields soundly Select.Growing := by
  unfold offset
  apply yields_ite
  · exact fun _ => yields_fail _
  · intro _
    apply expression_sound.bind
    intro count hcount
    have hskipped : Select.Growing { s with offset := some count } :=
      ⟨{ hs.built with }, { hs.below with offset := forall_mem_some hcount }⟩
    apply yields_bind_any
    intro rows
    apply yields_ite
    · exact fun _ => yields_pure hskipped
    · intro _
      apply yields_bind_any
      exact fun _ => yields_pure hskipped

theorem fetchStyle_ne : fetchStyle.Yields soundly fun style => style ≠ .unlimited := by
  unfold fetchStyle
  apply yields_bind_any
  intro with'
  apply yields_ite
  · intro _
    apply yields_bind_any
    exact fun _ => yields_pure (by decide)
  · intro _
    apply yields_bind_any
    exact fun _ => yields_pure (by decide)

theorem fetch_growing (first : Nat) {s : Select} (hs : s.Growing) :
    (fetch first s).Yields soundly Select.Growing := by
  have hcount : fetchCount.Yields soundly Node.Sound := by
    unfold fetchCount
    apply yields_bind_any
    intro k
    split
    · exact yields_pure (Node.sound_const _)
    · exact yields_pure (Node.sound_const _)
    · exact operand_sound _
  unfold fetch
  apply yields_ite
  · exact fun _ => yields_fail _
  · intro _
    apply yields_bind_any
    intro _
    apply hcount.bind
    intro count hcount
    apply yields_bind_any
    intro _
    apply fetchStyle_ne.bind
    intro style hstyle
    apply yields_pure
    refine ⟨{ hs.built with limited := ?_ }, { hs.below with limit := forall_mem_some hcount }⟩
    exact ⟨fun _ => rfl, fun _ => hstyle⟩

theorem moreClauses_growing {s : Select} (hs : s.Growing) :
    (moreClauses s).Yields soundly fun o => ∀ s' ∈ o, s'.Growing := by
  have hsome {p : Parser Select} (hp : p.Yields soundly Select.Growing) :
      (do return some (← p) : Parser (Option Select)).Yields soundly
        fun o => ∀ s ∈ o, s.Growing := by
    apply hp.bind
    exact fun s hs => yields_pure (forall_mem_some hs)
  unfold moreClauses
  apply yields_bind_any
  intro first
  apply yields_bind_any
  intro k
  split
  · apply yields_bind_any
    exact fun _ => hsome (limit_growing first hs)
  · apply yields_bind_any
    exact fun _ => hsome (offset_growing first hs)
  · apply yields_bind_any
    exact fun _ => hsome (fetch_growing first hs)
  · apply yields_bind_any
    intro _
    apply yields_bind_any
    intro l
    exact yields_pure (forall_mem_some ⟨{ hs.built with }, { hs.below with }⟩)
  · exact yields_pure forall_mem_none

/-- Behind its clauses a query has its shape. -/
theorem tail_sound {s : Select} (hs : s.Growing) :
    (tail s).Yields soundly fun s => (Node.select s).Sound := by
  unfold tail
  apply (queryOrder_growing hs).bind
  intro s hs
  apply (yields_iterate hs fun s hs => moreClauses_growing hs).bind
  intro s hs
  apply yields_ite
  · intro _
    apply yields_bind_any
    exact fun _ => yields_fail _
  · intro hordered
    refine yields_pure (hs.sound fun hties hempty => hordered ?_)
    simp [hasUnorderedTies, hties, hempty]

theorem continued_sound {s : Select} (hs : (Node.select s).Sound) :
    (continued s).Yields soundly fun s => (Node.select s).Sound := by
  unfold continued
  apply (combinationOf_sound hs).bind
  exact fun s hs => tail_sound (Select.growing_of_sound hs)

/-! ### Common table expressions -/

theorem ctes_sound : ctes.Yields soundly fun w => (Node.ctes w).Sound := by
  have hbody : cteBody.Yields soundly Node.Sound := by
    unfold cteBody
    apply change?_sound.bind
    intro change hchange
    split
    · next c => exact yields_pure (hchange c rfl)
    · apply query_sound.bind
      exact fun s hs => yields_pure hs
  have hcte : cte.Yields soundly fun c => c.query.Sound := by
    unfold cte
    apply yields_bind_any
    intro s
    apply yields_bind_any
    intro columns
    apply yields_bind_any
    intro _
    apply yields_bind_any
    intro m
    apply (yields_parenthesized hbody).bind
    exact fun n hn => yields_pure hn
  unfold ctes
  apply yields_bind_any
  intro recursive
  apply (yields_commaList_mem hcte).bind
  exact fun cs hcs => yields_pure (Node.sound_ctes.mpr hcs)

/-! ### Rules -/

theorem queryAfter_sound {w : With} (hw : (Node.ctes w).Sound) :
    (queryAfter w).Yields soundly fun s => (Node.select s).Sound := by
  unfold queryAfter
  apply yields_bind_any
  intro first
  apply combination_sound.bind
  intro s hs
  apply (tail_sound (Select.growing_of_sound hs)).bind
  intro s hs
  apply yields_ite
  · exact fun _ => yields_fail _
  · intro _
    obtain ⟨hshape, hbelow⟩ := Node.sound_select.mp hs
    exact yields_pure (Node.sound_select.mpr
      ⟨{ hshape with }, { hbelow with ctes := forall_mem_some hw }⟩)

theorem queryWithClauses_sound :
    queryWithClauses.Yields soundly fun s => (Node.select s).Sound := by
  unfold queryWithClauses
  apply yields_bind_any
  intro with'
  apply yields_ite
  · intro _
    apply ctes_sound.bind
    exact fun w hw => queryAfter_sound hw
  · intro _
    apply combination_sound.bind
    exact fun s hs => tail_sound (Select.growing_of_sound hs)

/-- Several items in parentheses are a row; there are at least two of them. -/
theorem enclosedItems_sound {first : Node} (hfirst : first.Sound) :
    (enclosedItems first).Yields soundly Enclosed.Sound := by
  unfold enclosedItems
  apply (itemsAfter_sound (List.cons_ne_nil first []) (by simpa using hfirst)).bind
  intro fields hfields
  apply yields_bind_any
  intro _
  split
  · exact yields_pure (hfields.2 _ List.mem_cons_self)
  · next hmany =>
    exact yields_pure (Node.sound_row.mpr ⟨fun _ => two_le_length hfields.1 hmany, hfields.2⟩)

theorem enclosedRest_sound {first : Node} (hfirst : first.Sound) :
    (enclosedRest first).Yields soundly Enclosed.Sound := by
  unfold enclosedRest
  apply (indirection_sound hfirst).bind
  intro n hn
  apply (operations_sound 0 hn).bind
  exact fun n hn => enclosedItems_sound hn

theorem enclosed_sound : enclosed.Yields soundly Enclosed.Sound := by
  have hafter (e : Enclosed) (he : e.Sound) : (afterEnclosed e).Yields soundly Enclosed.Sound := by
    cases e with
    | item n => exact enclosedRest_sound he
    | query s =>
      apply yields_bind_any
      intro k
      apply yields_ite
      · intro _
        apply (continued_sound he).bind
        intro s hs
        apply yields_bind_any
        exact fun _ => yields_pure hs
      · intro _
        apply yields_ite
        · intro _
          apply yields_bind_any
          exact fun _ => yields_pure he
        · exact fun _ => enclosedRest_sound he.operand
  unfold enclosed
  apply yields_bind_any
  intro _
  apply yields_bind_any
  intro k
  apply yields_ite
  · intro _
    apply query_sound.bind
    intro s hs
    apply yields_bind_any
    exact fun _ => yields_pure hs
  · intro _
    apply yields_ite
    · intro _
      apply enclosedContent_sound.bind
      exact hafter
    · intro _
      apply expression_sound.bind
      exact fun n hn => enclosedItems_sound hn

theorem enclosedSource_sound : enclosedSource.Yields soundly Enclosed.Sound := by
  have hitem {p : Parser Node} (hp : p.Yields soundly Node.Sound) :
      (do return .item (← p) : Parser Enclosed).Yields soundly Enclosed.Sound := by
    apply hp.bind
    exact fun n hn => yields_pure hn
  have hafter (e : Enclosed) (he : e.Sound) :
      (afterEnclosedSource e).Yields soundly Enclosed.Sound := by
    cases e with
    | item n =>
      apply yields_bind_any
      intro label
      exact hitem (joins_sound (sound_labelled he label))
    | query s =>
      apply yields_bind_any
      intro k
      apply yields_ite
      · intro _
        apply (continued_sound he).bind
        exact fun s hs => yields_pure hs
      · intro _
        apply (derivedTable_sound false he).bind
        exact fun n hn => hitem (joins_sound hn)
  apply yields_parenthesized
  unfold enclosedSourceBody
  apply yields_bind_any
  intro k
  apply yields_ite
  · intro _
    apply query_sound.bind
    exact fun s hs => yields_pure hs
  · intro _
    apply yields_ite
    · intro _
      apply yields_enclosedSourceContent.bind
      exact hafter
    · exact fun _ => hitem source_sound

end Grammar
end SqlSyntax
