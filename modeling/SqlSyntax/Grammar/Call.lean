import SqlSyntax.Grammar.Basic
import SqlSyntax.Tree.Building

/-!
# Calls, windows and sort keys

A function call with all that may stand in and behind its parentheses.

## Main definitions

* `sortKeys`, `optionalOrder` — the items of `ORDER BY`.
* `windowInParens` — a window with its frame.
* `call` — a function call behind the name of the function.
-/

namespace SqlSyntax

/-- The frame unit that a keyword stands for. -/
def FrameMode.ofWord? : Keyword → Option FrameMode
  | .ROWS => some rows
  | .RANGE => some range
  | .GROUPS => some groups
  | _ => none

namespace Grammar

open SqlSyntax.Parser

/-! ### Sort keys -/

/-- An optional place for nulls. -/
def optionalNulls : Parser NullsOrder := do
  if ← accept .nullsAhead then
    if ← acceptWord .FIRST then return .first
    else
      expectWord .LAST
      return .last
  else return .unspecified

/-- An optional direction in words. -/
def optionalDirection : Parser SortDirection := do
  if ← acceptWord .ASC then return .asc
  else if ← acceptWord .DESC then return .desc
  else return .unspecified

/-- An optional direction in words or by an operator. -/
def sortDirection : Parser SortDirection := do
  match ← optionalDirection with
  | .unspecified => do
    if ← acceptWord .USING then
      return .byOperator (← readAs (← kind).operator? .operator)
    else return .unspecified
  | d => return d

/-- An item of `ORDER BY`. -/
def sortKey : Parser SortKey := do
  let key ← expression
  let direction ← sortDirection
  return ⟨key, direction, ← optionalNulls⟩

/-- The items of `ORDER BY`, behind the first of these words. -/
def sortKeys : Parser (List SortKey) := do
  expectWord .BY
  commaList sortKey

/-- An optional `ORDER BY`. -/
def optionalOrder : Parser (List SortKey) :=
  listAfter .ORDER sortKeys

/-! ### Windows -/

/-- An end of a window frame. -/
def frameBound : Parser FrameBound := do
  if ← acceptWord .UNBOUNDED then
    if ← acceptWord .PRECEDING then return .unboundedPreceding
    else
      expectWord .FOLLOWING
      return .unboundedFollowing
  else if ← isAtWords .CURRENT .ROW then
    skip
    skip
    return .currentRow
  else
    let distance ← expression
    if ← acceptWord .PRECEDING then return .preceding distance
    else
      expectWord .FOLLOWING
      return .following distance

/-- The rows that a window frame leaves out. -/
def frameExclusion : Parser FrameExclusion := do
  match (← kind).keyword? with
  | some .CURRENT => do
    skip
    expectWord .ROW
    return .currentRow
  | some .GROUP => do
    skip
    return .group
  | some .TIES => do
    skip
    return .ties
  | some .NO => do
    skip
    expectWord .OTHERS
    return .noOthers
  | _ => unexpected .exclusion

/-- The ends of a window frame. -/
def frameBounds : Parser (FrameBound × Option FrameBound) := do
  if ← acceptWord .BETWEEN then
    let start ← frameBound
    expectWord .AND
    return (start, some (← frameBound))
  else return (← frameBound, none)

/-- An optional window frame. -/
def optionalFrame : Parser (Option Frame) := do
  match (← kind).keyword?.bind FrameMode.ofWord? with
  | none => return none
  | some mode =>
    skip
    let (start, stop) ← frameBounds
    return some ⟨mode, start, stop, ← after .EXCLUDE frameExclusion⟩

/-- Whether a token starts a clause of a window. -/
def startsWindowClause : TokenKind → Bool
  | .keyword .PARTITION | .keyword .ORDER | .keyword .ROWS | .keyword .RANGE
  | .keyword .GROUPS => true
  | _ => false

/-- The name of the window that a window builds on, if there is one. -/
def optionalBase : Parser (Option String) := do
  let k ← kind
  if isName k && !startsWindowClause k then return some (← name) else return none

/-- The expressions of `PARTITION BY`, behind the first of these words. -/
def partitionKeys : Parser (List Node) := do
  expectWord .BY
  expressions

/-- What stands in the parentheses of a window. -/
def windowBody : Parser Window := do
  let base ← optionalBase
  let keys ← listAfter .PARTITION partitionKeys
  let order ← optionalOrder
  return {
    base := base
    partition := keys
    order := order
    frame := ← optionalFrame }

/-- A window in parentheses. -/
def windowInParens : Parser Window :=
  parenthesized windowBody

/-- The window of a call: one in parentheses, or the name of another. -/
def callWindow : Parser Window := do
  if ← isAt .leftParen then windowInParens else return { name := some (← name) }

/-! ### Calls -/

/-- An argument, which may have a name. -/
def argument : Parser Node := do
  match ← nextKind with
  | .equalsGreater | .colonEquals => do
    let s ← callName
    skip
    return Node.namedArg s (← expression)
  | _ => expression

/-- Whether only distinct items are meant, in a word that may stand before
them. -/
def distinctOrAll : Parser Bool := do
  if ← acceptWord .DISTINCT then return true
  else
    skipWord .ALL
    return false

/-- What stands in the parentheses of a call. -/
def callBody (function : List String) : Parser Call := do
  if ← accept .star then return { function := function, args := [], star := true }
  else if ← isAt .rightParen then return { function := function, args := [] }
  else
    let distinct ← distinctOrAll
    let args ← commaList argument
    return {
      function := function
      args := args
      distinct := distinct
      order := ← optionalOrder }

/-- The condition for the rows of an aggregate, if there is one. -/
def optionalFilter : Parser (Option Node) := do
  if ← isAtWord .FILTER then
    if ← isBefore .leftParen then
      skip
      skip
      expectWord .WHERE
      let condition ← expression
      expect .rightParen
      return some condition
    else return none
  else return none

/-- A function call, behind the name of the function. -/
def call (function : List String) : Parser Call := do
  let c ← parenthesized (callBody function)
  let filter ← optionalFilter
  return { c with
    filter := filter
    window := ← after .OVER callWindow }

end Grammar
end SqlSyntax
