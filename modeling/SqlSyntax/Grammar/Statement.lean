import SqlSyntax.Grammar.Control
import SqlSyntax.Grammar.Definition
import SqlSyntax.Grammar.Enclosed

/-!
# Statements

The first word of a statement tells its kind.  Here all rules of the grammar come
together, and with them the limit to how deep they nest.

## Main definitions

* `Grammar.statement` — a statement of any kind.
* `Rule.body` — what each rule reads.
* `maxNesting`, `Rule.run` — running rules, down to a limited depth.
* `Parser.run` — running a parser from the start of a statement.
-/

namespace SqlSyntax

namespace Grammar

open SqlSyntax.Parser

/-- A statement behind `WITH`. -/
def statementAfterWith : Parser Node := do
  let w ← ctes
  match ← change? with
  | some c => return (c.withCtes w).node
  | none => return Node.select (← queryAfter w)

/-- A statement that starts with a word for transactions. -/
def transactionStatement (w : Keyword) : Parser Node :=
  match TransactionWord.ofWord? w with
  | some t => do
    skip
    return Node.transaction (← transaction t)
  | none => misplaced

/-- A statement that starts with the keyword `w` and is no query or change. -/
def statementOfWord (w : Keyword) : Parser Node := do
  match w with
  | .CREATE => do
    skip
    create
  | .DROP => do
    skip
    return Node.drop (← drop)
  | .TRUNCATE => do
    skip
    return Node.truncate (← truncate)
  | .SET => do
    skip
    setting
  | .RESET => do
    skip
    reset
  | .SHOW => do
    skip
    showSetting
  | w => transactionStatement w

/-- A statement other than a query. -/
def otherStatement : Parser Node := do
  match ← change? with
  | some c => return c.node
  | none =>
    match (← kind).keyword? with
    | some w => statementOfWord w
    | none => misplaced

/-- A statement. -/
def statement : Parser Node := do
  match ← kind with
  | .keyword .SELECT | .keyword .VALUES | .leftParen => return Node.select (← query)
  | .keyword .WITH => do
    skip
    statementAfterWith
  | _ => otherStatement

end Grammar

/-- What a rule reads. -/
def Rule.body : (r : Rule) → Parser r.Result
  | expression above => Grammar.expressionAbove above
  | query => Grammar.queryWithClauses
  | enclosed => Grammar.enclosed
  | elements => Grammar.elements
  | enclosedSource => Grammar.enclosedSource

/-- How deep rules may nest. -/
def maxNesting : Nat := 100

/-- Runs a rule in which others nest at most `depth` deep, itself included. -/
def Rule.run (b : Boundary) : Nat → (r : Rule) → Cursor → Outcome r.Result
  | 0, _, c => .error ⟨.tooDeep, c.place, c.place⟩ c
  | depth + 1, r, c => r.body.runWith b (Rule.run b depth) c

/-- Runs a parser in which no rule is being run. -/
def Parser.run {α : Type} (b : Boundary) (p : Parser α) (c : Cursor) : Outcome α :=
  p.runWith b (Rule.run b maxNesting) c

end SqlSyntax
