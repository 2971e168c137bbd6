import SqlSyntax.Grammar.Call

/-!
# Items of `FROM`

Tables, subqueries and function calls, joined to one another.

## Main definitions

* `Node.labelled` — an item in parentheses with a name behind it.
* `joins` — the joins behind an item.
* `sourcePrimary`, `source` — an item without and with joins.
* `sources` — the items of a clause.
-/

namespace SqlSyntax

/-- An item with an optional name, which takes the place of its own. -/
def Node.labelled (item : Node) (label : Option Alias) : Node :=
  match label, item with
  | some a, .join j => .join { j with label := some a }
  | some a, .table t => .table { t with label := some a }
  | some a, .derivedTable t => .derivedTable { t with label := some a }
  | some a, .tableFunction f => .tableFunction { f with label := some a }
  | _, item => item

namespace Grammar

open SqlSyntax.Parser

/-! ### Items -/

/-- What stands in parentheses among the items. -/
def enclosedSourceContent : Parser Enclosed :=
  .call .enclosedSource .done

/-- A subquery as an item, behind its parentheses. -/
def derivedTable (lateral : Bool) (s : Select) : Parser Node := do
  return Node.derivedTable ⟨lateral, s, ← optionalAlias⟩

/-- An item in parentheses, with an optional name. -/
def enclosedItem (lateral : Bool) : Parser Node := do
  match ← enclosedSourceContent with
  | .query s => derivedTable lateral s
  | .item n => return n.labelled (← optionalAlias)

/-- The name of a table, which may stand in parentheses behind `ONLY`. -/
def onlyTableName : Parser TableRef := do
  if ← isAt .leftParen then parenthesized tableName else tableName

/-- A table without those that inherit from it, behind `ONLY`. -/
def onlyTable : Parser Node := do
  let t ← onlyTableName
  return Node.table { t with
    only := true
    label := ← optionalAlias }

/-- A function call as an item, behind the name of the function. -/
def tableFunction (lateral : Bool) (function : List String) : Parser Node := do
  let c ← call function
  let ordinality ← accept .withAhead
  if ordinality then expectWord .ORDINALITY
  return Node.tableFunction ⟨lateral, ordinality, c, ← optionalAlias⟩

/-- Reads a star that means nothing, if it is there. -/
def skipStar : Parser Unit := do
  let _ ← accept .star

/-- A table or function call. -/
def namedItem (lateral : Bool) : Parser Node := do
  let first ← index
  let names ← dottedName
  if ← isAt .leftParen then tableFunction lateral names
  else if lateral then unexpected .lateralItem
  else
    let t ← tableOfNames first names
    skipStar
    return Node.table { t with label := ← optionalAlias }

/-- An item other than one in parentheses. -/
def plainItem (lateral : Bool) : Parser Node := do
  if lateral then namedItem true
  else if ← acceptWord .ONLY then onlyTable
  else namedItem false

/-- An item without joins behind it. -/
def sourcePrimary : Parser Node := do
  let lateral ← acceptWord .LATERAL
  if ← isAt .leftParen then enclosedItem lateral else plainItem lateral

/-! ### Joins -/

/-- The kind of a join, in the words before `JOIN`. -/
def joinKind? : Parser (Option JoinKind) := do
  match (← kind).keyword? with
  | some .JOIN => return some .inner
  | some .INNER => do
    skip
    return some .inner
  | some .LEFT => do
    skip
    skipWord .OUTER
    return some .left
  | some .RIGHT => do
    skip
    skipWord .OUTER
    return some .right
  | some .FULL => do
    skip
    skipWord .OUTER
    return some .full
  | _ => return none

/-- The condition of a join of two items: an expression or columns. -/
def joinCondition (j : Join) : Parser Join := do
  if ← acceptWord .ON then return { j with condition := some (← expression) }
  else if ← acceptWord .USING then return { j with columns := ← nameList }
  else unexpected .joinCondition

/-- A join with the item that follows `JOIN`. -/
def joinedWith (kind : JoinKind) (natural : Bool) (left : Node) : Parser Node := do
  expectWord .JOIN
  let right ← sourcePrimary
  let j : Join := { kind := kind, natural := natural, left := left, right := right }
  if natural then return Node.join j else return Node.join (← joinCondition j)

/-- A join behind `NATURAL`. -/
def naturalJoin (left : Node) : Parser Node := do
  match ← joinKind? with
  | some kind => joinedWith kind true left
  | none => unexpected .join

/-- A join on all pairs, behind `CROSS`. -/
def crossJoin (left : Node) : Parser Node := do
  expectWord .JOIN
  return Node.join { kind := .inner, left := left, right := ← sourcePrimary }

/-- A further join, if there is one. -/
def moreJoins (left : Node) : Parser (Option Node) := do
  if ← acceptWord .NATURAL then return some (← naturalJoin left)
  else if ← acceptWord .CROSS then return some (← crossJoin left)
  else
    match ← joinKind? with
    | some kind => return some (← joinedWith kind false left)
    | none => return none

/-- An item with the joins behind it. -/
def joins (left : Node) : Parser Node :=
  iterate moreJoins left

/-- An item with its joins. -/
def source : Parser Node := do
  joins (← sourcePrimary)

/-- One or more items. -/
def sources : Parser (List Node) :=
  commaList source

end Grammar
end SqlSyntax
