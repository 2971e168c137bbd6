import SqlSyntax.Grammar.Source
import SqlSyntax.Grammar.Target

/-!
# Changes

The statements that insert, update and delete rows.

## Main definitions

* `indexElement` — a column or expression of an index.
* `insert`, `update`, `delete` — the statements, behind their first word.
* `Change`, `change?` — any of them.
-/

namespace SqlSyntax

/-- A statement that changes rows. -/
inductive Change
  | insert (s : Insert)
  | update (s : Update)
  | delete (s : Delete)

namespace Change

/-- A change as a node. -/
def node : Change → Node
  | insert s => .insert s
  | update s => .update s
  | delete s => .delete s

/-- A change with common table expressions. -/
def withCtes (w : With) : Change → Change
  | insert s => insert { s with ctes := some w }
  | update s => update { s with ctes := some w }
  | delete s => delete { s with ctes := some w }

end Change

namespace Grammar

open SqlSyntax.Parser

/-! ### Index elements -/

/-- A column, function call or parenthesized expression of an index, without its
order. -/
def indexKey : Parser (Option String × Option Node) := do
  let k ← kind
  if isCallName k then
    if ← isBefore .leftParen then
      let function ← callName
      return (none, some (Node.call (← call [function])))
    else return (some (← name), none)
  else if k = .leftParen then return (none, some (← parenthesized expression))
  else return (some (← name), none)

/-- A column or expression of an index, with its order. -/
def indexElement : Parser IndexElement := do
  let (column, expression) ← indexKey
  let direction ← optionalDirection
  return ⟨column, expression, direction, ← optionalNulls⟩

/-- The columns and expressions of an index. -/
def indexElements : Parser (List IndexElement) :=
  parenthesized (commaList indexElement)

/-! ### Insertions -/

/-- Whether a token behind an opening parenthesis belongs to a query. -/
def startsEnclosedQuery (k : TokenKind) : Bool :=
  startsQuery k || k == .leftParen

/-- The columns to fill, in parentheses; a query may stand in parentheses in
their place. -/
def optionalColumns : Parser (List Target) := do
  if ← isAt .leftParen then
    if startsEnclosedQuery (← nextKind) then return []
    else parenthesized (commaList columnToFill)
  else return []

/-- The rows to insert. -/
def insertedRows : Parser (Option Select) := do
  if ← acceptWord .DEFAULT then
    expectWord .VALUES
    return none
  else return some (← query)

/-- The conflicts that a clause is meant for. -/
def optionalConflictTarget : Parser (Option ConflictTarget) := do
  if ← isAt .leftParen then
    let elements ← indexElements
    return some ⟨elements, ← optionalCondition, none⟩
  else if ← acceptWord .ON then
    expectWord .CONSTRAINT
    return some ⟨[], none, some (← name)⟩
  else return none

/-- The update of rows that conflict, behind `DO`.  It needs a target. -/
def conflictUpdate (target : Option ConflictTarget) : Parser OnConflict := do
  let first ← index
  expectWord .UPDATE
  if target.isNone then .fail ⟨.conflictTargetMissing, first, first⟩
  else
    expectWord .SET
    let assigned ← assignments
    return {
      action := .update
      target := target
      assignments := assigned
      condition := ← optionalCondition }

/-- What to do with rows that conflict, behind `ON`. -/
def onConflict : Parser OnConflict := do
  expectWord .CONFLICT
  let target ← optionalConflictTarget
  expectWord .DO
  if ← acceptWord .NOTHING then return { action := .nothing, target := target }
  else conflictUpdate target

/-- The name of a table that another name may follow, behind `AS`. -/
def insertedTable : Parser TableRef := do
  let t ← tableName
  return { t with label := (← after .AS name).map fun s => { name := s } }

/-- An insertion. -/
def insert : Parser Insert := do
  expectWord .INTO
  let table ← insertedTable
  let columns ← optionalColumns
  let rows ← insertedRows
  let conflict ← after .ON onConflict
  return {
    table := table
    columns := columns
    source := rows
    conflict := conflict
    returning := ← optionalReturning }

/-! ### Updates and deletions -/

/-- A table whose rows are changed: those of tables that inherit from it too,
unless `ONLY` stands before it. -/
def changedTable : Parser TableRef := do
  let only ← acceptWord .ONLY
  let t ← tableName
  if !only then skipStar
  return { t with only := only }

/-- A table whose rows are changed, with an optional name. -/
def changedTableWithAlias : Parser TableRef := do
  let t ← changedTable
  return { t with label := ← optionalAlias }

/-- An update. -/
def update : Parser Update := do
  let table ← changedTableWithAlias
  expectWord .SET
  let assigned ← assignments
  let items ← listAfter .FROM sources
  let condition ← optionalCondition
  return {
    table := table
    assignments := assigned
    condition := condition
    sources := items
    returning := ← optionalReturning }

/-- A deletion. -/
def delete : Parser Delete := do
  expectWord .FROM
  let table ← changedTableWithAlias
  let items ← listAfter .USING sources
  let condition ← optionalCondition
  return {
    table := table
    sources := items
    condition := condition
    returning := ← optionalReturning }

/-- A change, if one starts here. -/
def change? : Parser (Option Change) := do
  match (← kind).keyword? with
  | some .INSERT => do
    skip
    return some (.insert (← insert))
  | some .UPDATE => do
    skip
    return some (.update (← update))
  | some .DELETE => do
    skip
    return some (.delete (← delete))
  | _ => return none

end Grammar
end SqlSyntax
