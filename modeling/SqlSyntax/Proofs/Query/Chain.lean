import SqlSyntax.Proofs.Grammar.Reading
import SqlSyntax.Proofs.Grammar.Yielding
import SqlSyntax.Proofs.Tree.Combining

/-!
# Chains of simple queries

Simple queries with the words of combinations between them are always read as one query: the
combination in which they are grouped by precedence.  What the simple queries are is left to the
parser for them, which reads each where it stands.

## Main definitions

* `SimpleAt` — a simple query stands between two places.
* `QueryLink` — a word of a combination and the simple query behind it.
* `LinksAt` — several of these stand between two places.

## Main results

* `run_moreCombined` — the queries behind a first one.
* `query_chain` — **a chain is read as the combination that is grouped by precedence.**
-/

namespace SqlSyntax

open Grammar

/-! ### Chains -/

/-- What stands behind the word of a combination. -/
inductive Quantifier
  | unspecified | all | distinct
  deriving DecidableEq, Repr

namespace Quantifier

/-- Its token, if it is written. -/
def kinds : Quantifier → List TokenKind
  | unspecified => []
  | all => [.keyword .ALL]
  | distinct => [.keyword .DISTINCT]

/-- Whether duplicates are kept. -/
def keepsAll (q : Quantifier) : Bool :=
  q == all

/-- The place behind it. -/
def behind (q : Quantifier) (c : Cursor) : Cursor :=
  if q = unspecified then c else c.advance

end Quantifier

/-- The word of a combination with the simple query behind it. -/
structure QueryLink where
  word : Keyword
  op : SetOp
  isWord : SetOp.ofWord? word = some op
  quantifier : Quantifier
  query : Select

theorem QueryLink.op_ne_none (l : QueryLink) : l.op ≠ .none := by
  obtain ⟨w, op, hw, q, s⟩ := l
  rintro rfl
  cases w <;> cases hw

/-- The words and queries of a chain behind the first query. -/
def itemsOf (links : List QueryLink) : List CombinationItem :=
  links.flatMap fun l => [.word l.op l.quantifier.keepsAll, .query l.query]

@[simp] theorem itemsOf_nil : itemsOf [] = [] := rfl

@[simp] theorem itemsOf_cons (l : QueryLink) (links : List QueryLink) :
    itemsOf (l :: links) = .word l.op l.quantifier.keepsAll :: .query l.query :: itemsOf links := rfl

variable {b : Boundary} {depth : Nat} {c c₁ c' : Cursor} {s : Select} {links : List QueryLink}

/-- The simple query `s` stands at the place `c` and ends at `c'`. -/
structure SimpleAt (b : Boundary) (depth : Nat) (c : Cursor) (s : Select) (c' : Cursor) : Prop where
  starts : c.current b = .keyword .SELECT ∨ c.current b = .keyword .VALUES
  reads : simpleQuery.runWith b (Rule.run b depth) c = .ok s c'

/-- The links stand at the place `c` and end at `c'`. -/
inductive LinksAt (b : Boundary) (depth : Nat) : Cursor → List QueryLink → Cursor → Prop
  | nil (c : Cursor) : LinksAt b depth c [] c
  | cons {c c₁ c' : Cursor} {l : QueryLink} {links : List QueryLink} {ts : List TokenKind}
    (hword : c.run = .keyword l.word :: (l.quantifier.kinds ++ ts))
    (hquery : SimpleAt b depth (l.quantifier.behind c.advance) l.query c₁)
    (hlinks : LinksAt b depth c₁ links c') : LinksAt b depth c (l :: links) c'

/-- The first word binds no more tightly than `precedence`. -/
def LinksBounded (precedence : Nat) (links : List QueryLink) : Prop :=
  ∀ l ∈ links.head?, l.op.precedence ≤ precedence

theorem linksBounded_intersect (links : List QueryLink) :
    LinksBounded SetOp.intersect.precedence links :=
  fun l _ => SetOp.precedence_le_intersect l.op_ne_none

/-! ### Simple queries -/

/-- Simple queries have no clauses behind them. -/
def Select.IsBare (s : Select) : Prop :=
  s.IsSimple ∧ s.limitStyle = .unlimited

theorem selection_bare {K : Known} : selection.Yields K Select.IsBare := by
  open SqlSyntax.Parser in
  unfold selection
  refine yields_bind_any fun distinct => yields_bind_any fun targets => ?_
  refine yields_bind_any fun items => yields_bind_any fun condition => ?_
  refine yields_bind_any fun groups => yields_bind_any fun having => ?_
  exact yields_bind_any fun windows => yields_pure ⟨⟨rfl, rfl⟩, rfl⟩

theorem rows_bare {K : Known} : rows.Yields K Select.IsBare := by
  open SqlSyntax.Parser in
  unfold rows
  refine yields_bind_any fun first => yields_bind_any fun _ => yields_bind_any fun rs => ?_
  exact yields_ite (fun _ => yields_pure ⟨⟨rfl, rfl⟩, rfl⟩) fun _ => yields_refuseSince _ _

theorem SimpleAt.bare (h : SimpleAt b depth c s c') : s.IsBare := by
  let K : Known := ⟨fun _ => True, fun _ _ => True⟩
  have hensures : simpleQuery.Ensures K (c.current b) fun s _ => s.IsBare := by
    obtain hstart | hstart := h.starts
    · rw [hstart]
      exact fun k hk => selection_bare k hk
    · rw [hstart]
      exact rows_bare _ trivial
  exact Parser.Ensures.of_runWith (fun r c => r.reaches_run b depth c) (fun _ _ _ _ _ _ => trivial)
    ⟨fun _ _ => trivial, trivial, trivial⟩ hensures h.reads

theorem SimpleAt.reaches (h : SimpleAt b depth c s c') : c.Reaches c' := by
  have hreach := Parser.reaches_runWith (b := b) (Rule.reaches_run b depth) simpleQuery c
  rw [h.reads] at hreach
  exact hreach

theorem Cursor.Reaches.length_le (h : c.Reaches c') : c'.run.length ≤ c.run.length := by
  have hlength := h.place_add_length
  have hplace := h.place_le
  omega

theorem Quantifier.reaches_behind (q : Quantifier) (c : Cursor) : c.Reaches (q.behind c) := by
  unfold behind
  split
  · exact .refl c
  · exact c.reaches_advance

/-- Each link takes a token. -/
theorem LinksAt.length_le (h : LinksAt b depth c links c') : links.length ≤ c.run.length := by
  induction h with
  | nil => exact Nat.zero_le _
  | @cons c c₁ c' l links ts hword hquery hlinks ih =>
    have hbehind := (l.quantifier.reaches_behind c.advance).trans hquery.reaches
    have hle := hbehind.length_le
    rw [Cursor.run_advance, hword, List.tail_cons] at hle
    rw [hword, List.length_cons, List.length_cons]
    omega

/-! ### The words of a combination -/

namespace Grammar

open SqlSyntax.Parser

variable {rules : (r : Rule) → Cursor → Outcome r.Result} {left : Select}

theorem run_allOrDistinct (q : Quantifier) {ts : List TokenKind} (hrun : c.run = q.kinds ++ ts)
    (hall : (q.behind c).current b ≠ .keyword .ALL)
    (hdistinct : (q.behind c).current b ≠ .keyword .DISTINCT) :
    allOrDistinct.runWith b rules c = .ok q.keepsAll (q.behind c) := by
  cases q with
  | unspecified =>
    have hall : c.current b ≠ .keyword .ALL := hall
    have hdistinct : c.current b ≠ .keyword .DISTINCT := hdistinct
    simp [allOrDistinct, acceptWord, skipWord, accept, isAt, kind, Parser.bind, runWith, hall,
      hdistinct, Quantifier.keepsAll, Quantifier.behind]
  | all =>
    have hcurrent : c.current b = .keyword .ALL := by simp [Cursor.current, hrun, Quantifier.kinds]
    simp [allOrDistinct, acceptWord, accept, isAt, kind, skip, Parser.bind, runWith, hcurrent,
      Quantifier.keepsAll, Quantifier.behind]
  | distinct =>
    have hcurrent : c.current b = .keyword .DISTINCT := by
      simp [Cursor.current, hrun, Quantifier.kinds]
    simp [allOrDistinct, acceptWord, skipWord, accept, isAt, kind, skip, Parser.bind, runWith,
      hcurrent, Quantifier.keepsAll, Quantifier.behind]

theorem run_combinedWith (op : SetOp) (left : Select) {q : Quantifier} {ts : List TokenKind}
    {right : Parser Select} (hrun : c.run = q.kinds ++ ts)
    (hstarts : (q.behind c).current b = .keyword .SELECT ∨ (q.behind c).current b = .keyword .VALUES)
    (hright : right.runWith b rules (q.behind c) = .ok s c') :
    (combinedWith op left right).runWith b rules c
      = .ok (Select.combined op q.keepsAll left s) c' := by
  have hne : (q.behind c).current b ≠ .keyword .ALL ∧
      (q.behind c).current b ≠ .keyword .DISTINCT := by
    obtain h | h := hstarts <;> rw [h] <;> decide
  rw [combinedWith, bind_eq, runWith_bind, run_allOrDistinct q hrun hne.1 hne.2, Outcome.bind_ok,
    bind_eq, runWith_bind, hright]
  rfl

/-- The first of the tokens that are left is the current one. -/
theorem current_cons {k : TokenKind} {ts : List TokenKind} (h : c.run = k :: ts) :
    c.current b = k := by
  rw [Cursor.current, h, List.headD_cons]

theorem run_advance_cons {k : TokenKind} {ts : List TokenKind} (h : c.run = k :: ts) :
    c.advance.run = ts := by
  rw [Cursor.run_advance, h, List.tail_cons]

/-- A link behind `INTERSECT`. -/
theorem run_moreIntersected {l : QueryLink} {ts : List TokenKind} (hop : l.op = .intersect)
    (hword : c.run = .keyword l.word :: (l.quantifier.kinds ++ ts))
    (hquery : SimpleAt b depth (l.quantifier.behind c.advance) l.query c₁) :
    (moreIntersected left).runWith b (Rule.run b depth) c
      = .ok (some (Select.combined l.op l.quantifier.keepsAll left l.query)) c₁ := by
  have hcurrent := current_cons (b := b) hword
  obtain ⟨w, op, hw, q, s⟩ := l
  obtain rfl : op = .intersect := hop
  obtain rfl : w = .INTERSECT := by
    cases w <;> first | rfl | cases hw
  have hcombined := run_combinedWith .intersect left (run_advance_cons hword) hquery.starts
    hquery.reads
  simp only [moreIntersected, acceptWord, accept, isAt, kind, skip, bind_eq, Parser.bind, runWith,
    pure_eq, hcurrent, decide_true, if_true]
  rw [runWith_bind, hcombined]
  rfl

theorem run_moreIntersected_none (h : c.current b ≠ .keyword .INTERSECT) :
    (moreIntersected left).runWith b rules c = .ok none c := by
  simp [moreIntersected, acceptWord, accept, isAt, kind, Parser.bind, runWith, h]

/-- A link whose second query is read from the place behind its word. -/
theorem run_moreCombined_some {l : QueryLink} {ts : List TokenKind}
    (hword : c.run = .keyword l.word :: (l.quantifier.kinds ++ ts))
    (hstarts : (l.quantifier.behind c.advance).current b = .keyword .SELECT ∨
      (l.quantifier.behind c.advance).current b = .keyword .VALUES)
    (hsecond : (secondQuery l.op).runWith b rules (l.quantifier.behind c.advance) = .ok s c') :
    (moreCombined left).runWith b rules c
      = .ok (some (Select.combined l.op l.quantifier.keepsAll left s)) c' := by
  have hcombined := run_combinedWith l.op left (run_advance_cons hword) hstarts hsecond
  simp only [moreCombined, kind, skip, bind_eq, Parser.bind, runWith, current_cons hword,
    TokenKind.keyword?, Option.bind_some, l.isWord]
  rw [runWith_bind, hcombined]
  rfl

theorem run_moreCombined_none (h : (c.current b).keyword?.bind SetOp.ofWord? = none) :
    (moreCombined left).runWith b rules c = .ok none c := by
  simp [moreCombined, kind, Parser.bind, runWith, h]

/-! ### Loops -/

end Grammar

/-- The parser reads a grouped combination of some of the queries of a chain: of the items
`before` and those of the links up to one that binds no more tightly than `above`. -/
def ReadsLinks (b : Boundary) (depth : Nat) (c' : Cursor) (above : Nat) (p : Parser Select)
    (c : Cursor) (before : List CombinationItem) (links : List QueryLink) : Prop :=
  ∃ taken left s d, links = taken ++ left ∧ p.runWith b (Rule.run b depth) c = .ok s d ∧
    LinksAt b depth d left c' ∧ s.Grouped ∧ above < s.op.precedence ∧
    s.inorder = before ++ itemsOf taken ∧ LinksBounded above left

namespace Grammar

open SqlSyntax.Parser

variable {left : Select}

/-- No link stands at a place where no word of a combination does. -/
theorem continuesQuery_word {w : Keyword} {op : SetOp} (h : SetOp.ofWord? w = some op) :
    continuesQuery (.keyword w) = true := by
  cases w <;> first | rfl | cases h

/-- The queries behind `INTERSECT` are read up to another word. -/
theorem run_intersected (hend : continuesQuery (c'.current b) = false)
    (hlinks : LinksAt b depth c links c') (hleft : left.Grouped)
    (hle : SetOp.intersect.precedence ≤ left.op.precedence) {fuel : Nat}
    (hfuel : links.length < fuel) :
    ReadsLinks b depth c' SetOp.union.precedence (iterateAtMost moreIntersected fuel left) c
      left.inorder links := by
  induction hlinks generalizing left fuel with
  | nil c =>
    obtain ⟨n, rfl⟩ := Nat.exists_eq_succ_of_ne_zero (Nat.ne_of_gt hfuel)
    have hnone : c.current b ≠ .keyword .INTERSECT := by
      intro heq
      rw [heq] at hend
      cases hend
    refine ⟨[], [], left, c, rfl, ?_, .nil c, hleft, hle, by simp, nofun⟩
    rw [iterateAtMost, bind_eq, runWith_bind, run_moreIntersected_none hnone]
    rfl
  | @cons c c₁ c' l links ts hword hquery hlinks ih =>
    obtain ⟨n, rfl⟩ := Nat.exists_eq_succ_of_ne_zero (Nat.ne_of_gt (Nat.zero_lt_of_lt hfuel))
    by_cases hop : l.op = .intersect
    · have hright : SetOp.intersect.precedence < l.query.op.precedence := by
        rw [hquery.bare.1.op]
        decide
      have hgrouped : (Select.combined l.op l.quantifier.keepsAll left l.query).Grouped :=
        .combined _ (by rw [hop]; decide) hleft (.simple hquery.bare.1) (hop ▸ hle) (hop ▸ hright)
      obtain ⟨taken, rest, s, d, rfl, hrun, hrest, hs, habove, hinorder, hbounded⟩ :=
        ih hend hgrouped (Nat.le_of_eq (congrArg _ hop.symm)) (Nat.lt_of_succ_lt_succ hfuel)
      refine ⟨l :: taken, rest, s, d, rfl, ?_, hrest, hs, habove, ?_, hbounded⟩
      · rw [iterateAtMost, bind_eq, runWith_bind, run_moreIntersected hop hword hquery]
        exact hrun
      · rw [hinorder, inorder_combined, inorder_simple hquery.bare.1.left, itemsOf_cons]
        simp
    · -- another word ends the run of `INTERSECT`
      have hnone : c.current b ≠ .keyword .INTERSECT := by
        rw [current_cons hword]
        intro heq
        have hw := l.isWord
        rw [TokenKind.keyword.inj heq] at hw
        exact hop (Option.some.inj hw).symm
      refine ⟨[], l :: links, left, c, rfl, ?_, .cons hword hquery hlinks, hleft, hle, by simp, ?_⟩
      · rw [iterateAtMost, bind_eq, runWith_bind, run_moreIntersected_none hnone]
        rfl
      · rintro k ⟨⟩
        exact SetOp.precedence_le_union l.op_ne_none hop

/-- The second query of a combination takes the links that bind more tightly. -/
theorem run_secondQuery {op : SetOp} {q : Select} (hend : continuesQuery (c'.current b) = false)
    (hquery : SimpleAt b depth c q c₁) (hlinks : LinksAt b depth c₁ links c')
    (hop : op ≠ .none) :
    ReadsLinks b depth c' op.precedence (secondQuery op) c [.query q] links := by
  have hsimple : q.inorder = [.query q] := inorder_simple hquery.bare.1.left
  have hintersection :
      ReadsLinks b depth c' SetOp.union.precedence intersection c [.query q] links := by
    obtain ⟨taken, left, s, d, rfl, hrun, hleft, hs, habove, hinorder, hbounded⟩ :=
      run_intersected hend hlinks (.simple hquery.bare.1) (by rw [hquery.bare.1.op]; decide)
        (Nat.lt_succ_of_le hlinks.length_le)
    refine ⟨taken, left, s, d, rfl, ?_, hleft, hs, habove, hsimple ▸ hinorder, hbounded⟩
    rw [intersection, bind_eq, runWith_bind, hquery.reads, Outcome.bind_ok, iterate, runWith,
      c₁.room_eq]
    exact hrun
  cases op with
  | none => exact absurd rfl hop
  | intersect =>
    refine ⟨[], links, q, c₁, rfl, hquery.reads, hlinks, .simple hquery.bare.1, ?_, by simp [hsimple],
      linksBounded_intersect links⟩
    rw [hquery.bare.1.op]
    decide
  | union => exact hintersection
  | except => exact hintersection

/-- **The queries behind a first one**, which binds at least as tightly as the next word. -/
theorem run_moreCombined (hend : continuesQuery (c'.current b) = false)
    (hlinks : LinksAt b depth c links c') (hleft : left.Grouped)
    (hbounded : LinksBounded left.op.precedence links) {fuel : Nat} (hfuel : links.length < fuel) :
    ∃ s, (iterateAtMost moreCombined fuel left).runWith b (Rule.run b depth) c = .ok s c' ∧
      s.Grouped ∧ s.inorder = left.inorder ++ itemsOf links ∧
      (links = [] → s = left) ∧ (links ≠ [] → s.limitStyle = .unlimited) := by
  -- the second query of a link may take more than one, so the induction is on their number
  induction fuel generalizing left c links with
  | zero => exact absurd hfuel (Nat.not_lt_zero _)
  | succ fuel ih =>
    cases hlinks with
    | nil =>
      have hnone : (c'.current b).keyword?.bind SetOp.ofWord? = none := by
        cases hword : c'.current b with
        | keyword w =>
          rw [hword] at hend
          cases hop : SetOp.ofWord? w with
          | none => exact hop
          | some op => exact absurd hend (by rw [continuesQuery_word hop]; decide)
        | _ => rfl
      refine ⟨left, ?_, hleft, by simp, fun _ => rfl, fun hne => absurd rfl hne⟩
      rw [iterateAtMost, bind_eq, runWith_bind, run_moreCombined_none hnone]
      rfl
    | @cons _ c₁ _ l links ts hword hquery hlinks =>
      obtain ⟨taken, rest, r, d, rfl, hrun, hrest, hr, hlt, hinorder, hnext⟩ :=
        run_secondQuery hend hquery hlinks l.op_ne_none
      have hgrouped : (Select.combined l.op l.quantifier.keepsAll left r).Grouped :=
        .combined _ l.op_ne_none hleft hr (hbounded l rfl) hlt
      have hshorter : rest.length < fuel := by
        simp only [List.length_cons, List.length_append] at hfuel
        omega
      obtain ⟨s, hs, hgroupedS, hinorderS, hsame, hbare⟩ := ih hrest hgrouped hnext hshorter
      refine ⟨s, ?_, hgroupedS, ?_, fun hnil => absurd hnil (List.cons_ne_nil _ _), fun _ => ?_⟩
      · rw [iterateAtMost, bind_eq, runWith_bind, run_moreCombined_some hword hquery.starts hrun]
        exact hs
      · rw [hinorderS, inorder_combined, hinorder]
        simp [itemsOf]
      · by_cases hnil : rest = []
        · rw [hsame hnil]
          rfl
        · exact hbare hnil

/-! ### The end of a chain -/

/-- Where nothing continues a query, no clause follows it. -/
theorem run_tail_none {rules : (r : Rule) → Cursor → Outcome r.Result}
    (hend : continuesQuery (c.current b) = false) (hstyle : s.limitStyle = .unlimited) :
    (tail s).runWith b rules c = .ok s c := by
  have horder : c.current b ≠ .keyword .ORDER := by
    intro heq
    rw [heq] at hend
    cases hend
  have hqueryOrder : (queryOrder s).runWith b rules c = .ok s c := by
    simp [queryOrder, index, acceptWord, accept, isAt, kind, Parser.bind, runWith, horder]
  have hmore : (moreClauses s).runWith b rules c = .ok none c := by
    simp only [moreClauses, index, kind, bind_eq, Parser.bind, runWith]
    split <;> first
      | rfl
      | (next h =>
          unfold TokenKind.keyword? at h
          split at h
          · next heq =>
            cases h
            rw [heq] at hend
            cases hend
          · cases h)
  have hclauses : (iterate moreClauses s).runWith b rules c = .ok s c := by
    rw [iterate, runWith, iterateAtMost, bind_eq, runWith_bind, hmore]
    rfl
  have hties : hasUnorderedTies s = false := by
    rw [hasUnorderedTies, hstyle]
    rfl
  rw [tail, bind_eq, runWith_bind, hqueryOrder, Outcome.bind_ok, bind_eq, runWith_bind, hclauses,
    Outcome.bind_ok, hties]
  rfl

end Grammar

/-- **A chain of simple queries is read as one query**: as the combination of just these queries,
with just these words between them, in which the first query of each combination binds at least
as tightly as its word and the second more tightly. -/
theorem query_chain {first : Select} (hfirst : SimpleAt b depth c first c₁)
    (hlinks : LinksAt b depth c₁ links c') (hend : continuesQuery (c'.current b) = false) :
    ∃ s, Rule.run b (depth + 1) .query c = .ok s c' ∧ s.Grouped ∧
      s.inorder = .query first :: itemsOf links ∧
      ∀ t : Select, t.Grouped → t.inorder = .query first :: itemsOf links → t = s := by
  have hbounded : LinksBounded first.op.precedence links := by
    intro l hl
    have hle := linksBounded_intersect links l hl
    rw [hfirst.bare.1.op]
    exact Nat.le_trans hle (by decide)
  obtain ⟨s, hrun, hs, hinorder, hsame, hbare⟩ := run_moreCombined hend hlinks
    (.simple hfirst.bare.1) hbounded (Nat.lt_succ_of_le hlinks.length_le)
  rw [inorder_simple hfirst.bare.1.left, List.singleton_append] at hinorder
  have hstyle : s.limitStyle = .unlimited := by
    by_cases hnil : links = []
    · rw [hsame hnil]
      exact hfirst.bare.2
    · exact hbare hnil
  have hwith : c.current b ≠ .keyword .WITH := by
    obtain h | h := hfirst.starts <;> rw [h] <;> decide
  have hcombination : combination.runWith b (Rule.run b depth) c = .ok s c' := by
    rw [combination, Parser.bind_eq, Parser.runWith_bind, hfirst.reads, Outcome.bind_ok,
      combinationOf, Parser.iterate, Parser.runWith, c₁.room_eq]
    exact hrun
  refine ⟨s, ?_, hs, hinorder, fun t ht heq => ht.eq_of_inorder hs (heq.trans hinorder.symm)⟩
  have hbody : Rule.run b (depth + 1) .query c
      = (combination >>= tail).runWith b (Rule.run b depth) c := by
    show queryWithClauses.runWith b (Rule.run b depth) c = _
    simp [queryWithClauses, acceptWord, accept, isAt, Parser.kind, Parser.bind, Parser.runWith,
      hwith]
  rw [hbody, Parser.bind_eq, Parser.runWith_bind, hcombination]
  exact run_tail_none hend hstyle

/-- The tokens of `SELECT 1 UNION SELECT 2 INTERSECT ALL VALUES (3)`. -/
def mixedChain : List TokenKind :=
  [.keyword .SELECT, .integer 1, .keyword .UNION, .keyword .SELECT, .integer 2,
    .keyword .INTERSECT, .keyword .ALL, .keyword .VALUES, .leftParen, .integer 3, .rightParen]

/-- `SELECT 1 UNION SELECT 2 INTERSECT ALL VALUES (3)` is read with `INTERSECT` inside `UNION`. -/
theorem query_chain_mixed : ∃ c', Rule.run .ofText 2 .query { run := mixedChain }
    = .ok (Select.combined .union false { targets := [⟨none, some (Node.integer 1)⟩] }
        (Select.combined .intersect true { targets := [⟨none, some (Node.integer 2)⟩] }
          { rows := [[Node.integer 3]] })) c' ∧ c'.run = [] := by
  let one : Select := { targets := [⟨none, some (Node.integer 1)⟩] }
  let two : Select := { targets := [⟨none, some (Node.integer 2)⟩] }
  let three : Select := { rows := [[Node.integer 3]] }
  let union : QueryLink := ⟨.UNION, .union, rfl, .unspecified, two⟩
  let intersect : QueryLink := ⟨.INTERSECT, .intersect, rfl, .all, three⟩
  obtain ⟨s, hrun, hs, hinorder, hunique⟩ := query_chain
    (⟨.inl rfl, rfl⟩ : SimpleAt .ofText 1 { run := mixedChain } one _)
    (.cons rfl ⟨.inl rfl, rfl⟩ (.cons rfl ⟨.inr rfl, rfl⟩ (.nil _)) :
      LinksAt .ofText 1 _ [union, intersect] _) rfl
  have hgrouped : (Select.combined .union false one (Select.combined .intersect true two three)).Grouped :=
    .combined _ (by decide) (.simple ⟨rfl, rfl⟩)
      (.combined _ (by decide) (.simple ⟨rfl, rfl⟩) (.simple ⟨rfl, rfl⟩) (by decide) (by decide))
      (by decide) (by decide)
  rw [hunique _ hgrouped (by
    rw [inorder_combined, inorder_combined, inorder_simple rfl, inorder_simple rfl,
      inorder_simple rfl]
    rfl)]
  exact ⟨_, hrun, rfl⟩

end SqlSyntax
