import SqlSyntax.Grammar.Query

/-!
# Parentheses

An opening parenthesis may start a query, an expression, a row or a joined item
of `FROM`, and several in a row may start either.  What the inner ones turn out
to hold decides what the outer ones can.

## Main definitions

* `enclosed` — the rule for parentheses in an expression.
* `enclosedSource` — the rule for parentheses among the items of `FROM`.
-/

namespace SqlSyntax.Grammar

open SqlSyntax.Parser

/-! ### In an expression -/

/-- A first expression with those that make it a row, and the closing
parenthesis. -/
def enclosedItems (first : Node) : Parser Enclosed := do
  let fields ← itemsAfter .comma expression [first]
  expect .rightParen
  match fields with
  | [n] => return .item n
  | ns => return .item (Node.row ns false)

/-- What follows an operand in parentheses. -/
def enclosedRest (first : Node) : Parser Enclosed := do
  enclosedItems (← operations 0 (← indirection first))

/-- What follows inner parentheses. -/
def afterEnclosed : Enclosed → Parser Enclosed
  | .item n => enclosedRest n
  | .query s => do
    let k ← kind
    if continuesQuery k then
      let s ← continued s
      expect .rightParen
      return .query s
    else if k = .rightParen then
      skip
      return .query s
    else enclosedRest (Enclosed.query s).operand

/-- What parentheses in an expression hold. -/
def enclosed : Parser Enclosed := do
  expect .leftParen
  let k ← kind
  if startsQuery k then
    let s ← query
    expect .rightParen
    return .query s
  else if k = .leftParen then afterEnclosed (← enclosedContent)
  else enclosedItems (← expression)

/-! ### Among the items of `FROM` -/

/-- What follows inner parentheses, up to the closing one. -/
def afterEnclosedSource : Enclosed → Parser Enclosed
  | .item n => do
    return .item (← joins (n.labelled (← optionalAlias)))
  | .query s => do
    let k ← kind
    if continuesQuery k || k == .rightParen then return .query (← continued s)
    else return .item (← joins (← derivedTable false s))

/-- What parentheses among the items hold, without the parentheses. -/
def enclosedSourceBody : Parser Enclosed := do
  let k ← kind
  if startsQuery k then return .query (← query)
  else if k = .leftParen then afterEnclosedSource (← enclosedSourceContent)
  else return .item (← source)

/-- What parentheses among the items of `FROM` hold. -/
def enclosedSource : Parser Enclosed :=
  parenthesized enclosedSourceBody

end SqlSyntax.Grammar
