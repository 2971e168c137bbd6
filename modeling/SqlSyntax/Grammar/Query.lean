import SqlSyntax.Grammar.Change
import SqlSyntax.Grammar.Expression

/-!
# Queries

Select lists, rows of values, their combinations, and the clauses in front of
them and behind them.

## Main definitions

* `selection`, `rows` — the two kinds of simple queries.
* `combination` — queries combined; `INTERSECT` binds more tightly than `UNION`
  and `EXCEPT`, and all three group to the left.
* `tail` — the clauses behind a query.
* `ctes` — the common table expressions in front.
* `queryWithClauses` — the rule for queries.
-/

namespace SqlSyntax

/-- The combination that a keyword stands for. -/
def SetOp.ofWord? : Keyword → Option SetOp
  | .UNION => some union
  | .INTERSECT => some intersect
  | .EXCEPT => some except
  | _ => .none

namespace Grammar

open SqlSyntax.Parser

/-! ### Selections -/

/-- The expressions behind `DISTINCT`, if they are given. -/
def distinctKeys : Parser (List Node) := do
  if ← acceptWord .ON then parenthesized expressions else return []

/-- An optional `DISTINCT` before a select list. -/
def optionalDistinct : Parser (Option (List Node)) := do
  if ← acceptWord .DISTINCT then return some (← distinctKeys)
  else
    skipWord .ALL
    return none

/-- Whether a token shows that a select list is empty. -/
def endsOutput : TokenKind → Bool
  | .eof | .semicolon | .rightParen => true
  | .keyword .FROM | .keyword .WHERE | .keyword .GROUP | .keyword .HAVING
  | .keyword .WINDOW => true
  | k => continuesQuery k

/-- A select list, which may be empty. -/
def outputColumns : Parser (List Target) := do
  if endsOutput (← kind) then return [] else commaList outputColumn

/-- The expressions of `GROUP BY`, behind the first of these words. -/
def groupKeys : Parser (List Node) := do
  expectWord .BY
  expressions

/-- A named window. -/
def windowDefinition : Parser Window := do
  let s ← name
  expectWord .AS
  return { ← windowInParens with name := some s }

/-- A query with a select list, behind its first word. -/
def selection : Parser Select := do
  let distinct ← optionalDistinct
  let targets ← outputColumns
  let items ← listAfter .FROM sources
  let condition ← optionalCondition
  let groups ← listAfter .GROUP groupKeys
  let having ← after .HAVING expression
  return {
    distinct := distinct
    targets := targets
    sources := items
    condition := condition
    groups := groups
    having := having
    windows := ← listAfter .WINDOW (commaList windowDefinition) }

/-! ### Rows of values -/

/-- A row of values. -/
def row : Parser (List Node) :=
  parenthesized (commaList valueOrDefault)

/-- Whether all lists have the same length. -/
def sameLength {α : Type} : List (List α) → Bool
  | [] => true
  | r :: rs => rs.all fun r' => r'.length == r.length

/-- Rows of values.  The first word was read before the current token. -/
def rows : Parser Select := do
  let first ← index
  skip
  let rs ← commaList row
  if sameLength rs then return { rows := rs } else refuseSince first .unequalRows

/-! ### Combinations -/

/-- A query that is not combined with another, unless in parentheses. -/
def simpleQuery : Parser Select := do
  match ← kind with
  | .keyword .SELECT => do
    skip
    selection
  | .keyword .VALUES => rows
  | .leftParen => parenthesized query
  | _ => unexpected .query

/-- Whether a combination keeps duplicates, in a word that may follow it. -/
def allOrDistinct : Parser Bool := do
  if ← acceptWord .ALL then return true
  else
    skipWord .DISTINCT
    return false

/-- The combination of a query with what `right` reads, behind the word of the
combination. -/
def combinedWith (op : SetOp) (left : Select) (right : Parser Select) : Parser Select := do
  let all ← allOrDistinct
  return Select.combined op all left (← right)

/-- A further query behind `INTERSECT`, if there is one. -/
def moreIntersected (left : Select) : Parser (Option Select) := do
  if ← acceptWord .INTERSECT then return some (← combinedWith .intersect left simpleQuery)
  else return none

/-- Queries combined by `INTERSECT`. -/
def intersection : Parser Select := do
  iterate moreIntersected (← simpleQuery)

/-- The second query of a combination. -/
def secondQuery : SetOp → Parser Select
  | .intersect => simpleQuery
  | _ => intersection

/-- A further query behind the word of a combination, if there is one. -/
def moreCombined (left : Select) : Parser (Option Select) := do
  match (← kind).keyword?.bind SetOp.ofWord? with
  | none => return none
  | some op =>
    skip
    return some (← combinedWith op left (secondQuery op))

/-- A first query with those combined with it. -/
def combinationOf (first : Select) : Parser Select :=
  iterate moreCombined first

/-- Queries combined. -/
def combination : Parser Select := do
  combinationOf (← simpleQuery)

/-! ### Clauses behind a query -/

/-- The order of a query, which may have one already from its parentheses. -/
def queryOrder (s : Select) : Parser Select := do
  let first ← index
  if ← acceptWord .ORDER then
    expectWord .BY
    if s.order.isEmpty then return { s with order := ← commaList sortKey }
    else .fail ⟨.repeatedOrder, first, first⟩
  else return s

/-- The number behind `LIMIT`. -/
def limitCount : Parser Node := do
  if ← acceptWord .ALL then return Node.const .null else expression

/-- The limit behind `LIMIT`, which is the token at `first`. -/
def limit (first : Nat) (s : Select) : Parser Select := do
  if s.limit.isSome then .fail ⟨.repeatedLimit, first, first⟩
  else
    let count ← limitCount
    if ← isAt .comma then .fail ⟨.limitPair, first, ← index⟩
    else return { s with
      limit := some count
      limitStyle := .count }

/-- The number behind `OFFSET`, which is the token at `first`. -/
def offset (first : Nat) (s : Select) : Parser Select := do
  if s.offset.isSome then .fail ⟨.repeatedOffset, first, first⟩
  else
    let count ← expression
    if ← acceptWord .ROWS then return { s with offset := some count }
    else
      skipWord .ROW
      return { s with offset := some count }

/-- The number of rows to fetch; one if it is left out. -/
def fetchCount : Parser Node := do
  match ← kind with
  | .keyword .ROW | .keyword .ROWS => return Node.integer 1
  | _ => operand Level.sign

/-- Reads one of two keywords, the second of which is named if neither is
there. -/
def expectEither (v w : Keyword) : Parser Unit := do
  if ← acceptWord v then return () else expectWord w

/-- Whether rows that equal the last one are fetched too. -/
def fetchStyle : Parser LimitStyle := do
  if ← acceptWord .WITH then
    expectWord .TIES
    return .withTies
  else
    expectWord .ONLY
    return .count

/-- The limit behind `FETCH`, which is the token at `first`. -/
def fetch (first : Nat) (s : Select) : Parser Select := do
  if s.limit.isSome then .fail ⟨.repeatedLimit, first, first⟩
  else
    expectEither .FIRST .NEXT
    let count ← fetchCount
    expectEither .ROWS .ROW
    return { s with
      limitStyle := ← fetchStyle
      limit := some count }

/-- How strongly rows are locked. -/
def lockStrength : Parser LockStrength := do
  match (← kind).keyword? with
  | some .UPDATE => do
    skip
    return .update
  | some .NO => do
    skip
    expectWord .KEY
    expectWord .UPDATE
    return .noKeyUpdate
  | some .SHARE => do
    skip
    return .share
  | some .KEY => do
    skip
    expectWord .SHARE
    return .keyShare
  | _ => unexpected .lockStrength

/-- What happens at locked rows. -/
def lockWait : Parser LockWait := do
  if ← acceptWord .NOWAIT then return .fail
  else if ← acceptWord .SKIP then
    expectWord .LOCKED
    return .skip
  else return .block

/-- A locking clause behind `FOR`. -/
def locking : Parser Locking := do
  let strength ← lockStrength
  let tables ← listAfter .OF (commaList tableName)
  return ⟨tables, strength, ← lockWait⟩

/-- A further clause behind a query, if there is one. -/
def moreClauses (s : Select) : Parser (Option Select) := do
  let first ← index
  match (← kind).keyword? with
  | some .LIMIT => do
    skip
    return some (← limit first s)
  | some .OFFSET => do
    skip
    return some (← offset first s)
  | some .FETCH => do
    skip
    return some (← fetch first s)
  | some .FOR => do
    skip
    return some { s with locks := s.locks ++ [← locking] }
  | _ => return none

/-- Whether a query takes the rows that equal its last one without an order. -/
def hasUnorderedTies (s : Select) : Bool :=
  s.limitStyle == .withTies && s.order.isEmpty

/-- A query with the clauses behind it. -/
def tail (s : Select) : Parser Select := do
  let s ← iterate moreClauses (← queryOrder s)
  if hasUnorderedTies s then
    let n ← index
    .fail ⟨.unorderedTies, n - 1, n - 1⟩
  else return s

/-- A first query with all that may follow it. -/
def continued (s : Select) : Parser Select := do
  tail (← combinationOf s)

/-! ### Common table expressions -/

/-- Whether a common table expression is computed once. -/
def materialization : Parser Materialization := do
  if ← acceptWord .MATERIALIZED then return .always
  else if ← acceptWord .NOT then
    expectWord .MATERIALIZED
    return .never
  else return .unspecified

/-- What a common table expression stands for. -/
def cteBody : Parser Node := do
  match ← change? with
  | some c => return c.node
  | none => return Node.select (← query)

/-- A common table expression. -/
def cte : Parser Cte := do
  let s ← name
  let columns ← optionalNameList
  expectWord .AS
  let m ← materialization
  return ⟨s, columns, m, ← parenthesized cteBody⟩

/-- The common table expressions behind `WITH`. -/
def ctes : Parser With := do
  let recursive ← acceptWord .RECURSIVE
  return ⟨← commaList cte, recursive⟩

/-! ### Rules -/

/-- A query with the clauses behind it, to which `w` belongs. -/
def queryAfter (w : With) : Parser Select := do
  let first ← index
  let s ← tail (← combination)
  if s.ctes.isSome then .fail ⟨.repeatedWith, first, first⟩
  else return { s with ctes := some w }

/-- A query with all its clauses. -/
def queryWithClauses : Parser Select := do
  if ← acceptWord .WITH then queryAfter (← ctes) else tail (← combination)

end Grammar
end SqlSyntax
