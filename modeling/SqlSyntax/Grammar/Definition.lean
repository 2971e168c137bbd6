import SqlSyntax.Grammar.Change
import SqlSyntax.Grammar.TypeName

/-!
# Definitions

The statements that create, remove and empty objects.  In a definition, a
keyword counts as such whatever follows it.

## Main definitions

* `columnDef`, `tableConstraint` — the elements of a table.
* `create`, `drop`, `truncate` — the statements, behind their first word.
-/

namespace SqlSyntax

/-- The kind of object that a keyword stands for. -/
def ObjectKind.ofWord? : Keyword → Option ObjectKind
  | .TABLE => some table
  | .VIEW => some view
  | .INDEX => some index
  | .SEQUENCE => some sequence
  | .SCHEMA => some schema
  | _ => none

namespace Grammar

open SqlSyntax.Parser

/-- The keyword that the current token spells, whatever follows it. -/
def spelledWord : Parser (Option Keyword) := do
  return (← kind).spelledKeyword?

/-- The words for an object that may exist already. -/
def ifNotExists : Parser Bool := do
  if ← isAtWords .IF .NOT then
    skip
    skip
    expectWord .EXISTS
    return true
  else return false

/-- The words for an object that may be missing. -/
def ifExists : Parser Bool := do
  if ← isAtWords .IF .EXISTS then
    skip
    skip
    return true
  else return false

/-! ### Constraints -/

/-- The condition of a check, in parentheses. -/
def check : Parser Constraint := do
  return {
    kind := .check
    expression := some (← parenthesized expression) }

/-- What a foreign key does when the row it refers to changes. -/
def foreignKeyAction : Parser ForeignKeyAction := do
  match ← spelledWord with
  | some .NO => do
    skip
    expectWord .ACTION
    return .noAction
  | some .RESTRICT => do
    skip
    return .restrict
  | some .CASCADE => do
    skip
    return .cascade
  | some .SET => do
    skip
    if ← acceptWord .NULL then return .setNull
    else
      expectWord .DEFAULT
      return .setDefault
  | _ => misplaced

/-- A further action of a foreign key, if there is one.  The last one of either
kind counts. -/
def moreActions (c : Constraint) : Parser (Option Constraint) := do
  if ← isAtWord .ON then
    match ← nextKind with
    | .keyword .DELETE => do
      skip
      skip
      return some { c with onDelete := ← foreignKeyAction }
    | .keyword .UPDATE => do
      skip
      skip
      return some { c with onUpdate := ← foreignKeyAction }
    | _ => return none
  else return none

/-- A foreign key of the given columns, behind `REFERENCES`. -/
def foreignKey (columns : List String) : Parser Constraint := do
  let table ← tableName
  let refColumns ← optionalNameList
  iterate moreActions {
    kind := .foreign
    columns := columns
    refTable := some table
    refColumns := refColumns }

/-- The name of a constraint, if it has one. -/
def optionalConstraintName : Parser (Option String) :=
  after .CONSTRAINT name

/-- A constraint of a column without its name, if one starts here. -/
def columnConstraintBody : Parser (Option Constraint) := do
  match ← spelledWord with
  | some .NOT => do
    skip
    expectWord .NULL
    return some { kind := .notNull }
  | some .NULL => do
    skip
    return some { kind := .null }
  | some .DEFAULT => do
    skip
    return some {
      kind := .default
      expression := some (← operand Level.is) }
  | some .CHECK => do
    skip
    return some (← check)
  | some .PRIMARY => do
    skip
    expectWord .KEY
    return some { kind := .primary }
  | some .UNIQUE => do
    skip
    return some { kind := .unique }
  | some .REFERENCES => do
    skip
    return some (← foreignKey [])
  | _ => return none

/-- A constraint of a column, if one starts here. -/
def columnConstraint : Parser (Option Constraint) := do
  let s ← optionalConstraintName
  match ← columnConstraintBody, s with
  | some c, s => return some { c with name := s }
  | none, none => return none
  | none, some _ => misplaced

/-- A constraint of a table without its name. -/
def tableConstraintBody : Parser Constraint := do
  match ← spelledWord with
  | some .CHECK => do
    skip
    check
  | some .PRIMARY => do
    skip
    expectWord .KEY
    return {
      kind := .primary
      keys := ← nameList }
  | some .UNIQUE => do
    skip
    return {
      kind := .unique
      keys := ← nameList }
  | some .FOREIGN => do
    skip
    expectWord .KEY
    let columns ← nameList
    expectWord .REFERENCES
    foreignKey columns
  | _ => misplaced

/-- A constraint of a table. -/
def tableConstraint : Parser Constraint := do
  let s ← optionalConstraintName
  return { ← tableConstraintBody with name := s }

/-! ### Tables, indexes and views -/

/-- A further collation or constraint of a column, if there is one.  The last
collation counts. -/
def moreColumnParts (c : ColumnDef) : Parser (Option ColumnDef) := do
  if ← acceptWord .COLLATE then return some { c with collation := ← dottedName }
  else
    match ← columnConstraint with
    | some k => return some { c with constraints := c.constraints ++ [k] }
    | none => return none

/-- A column of a table. -/
def columnDef : Parser ColumnDef := do
  let s ← name
  let type ← typeName
  iterate moreColumnParts ⟨s, type, [], []⟩

/-- Whether a keyword starts a constraint of a table. -/
def startsTableConstraint : Keyword → Bool
  | .CONSTRAINT | .CHECK | .PRIMARY | .UNIQUE | .FOREIGN => true
  | _ => false

/-- A column or constraint of a table. -/
def tableElement : Parser Node := do
  if (← spelledWord).any startsTableConstraint then return Node.constraint (← tableConstraint)
  else return Node.columnDef (← columnDef)

/-- The elements of a table. -/
def tableElements : Parser (List Node) := do
  if ← isAt .rightParen then return [] else commaList tableElement

/-- A table to create. -/
def createTable (persistence : Persistence) : Parser Node := do
  let lenient ← ifNotExists
  let t ← tableName
  let elements ← parenthesized tableElements
  return Node.createTable { t with persistence := persistence } elements lenient

/-- A view to create. -/
def createView (persistence : Persistence) (replace : Bool) : Parser Node := do
  let t ← tableName
  let columns ← optionalNameList
  expectWord .AS
  return Node.createView ⟨{ t with persistence := persistence }, columns, ← query, replace⟩

/-- The name of an index, which may be left out unless the index may exist
already. -/
def optionalIndexName (lenient : Bool) : Parser (Option String) := do
  if lenient then return some (← name)
  else if ← isAtWord .ON then return none
  else return some (← name)

/-- An index to create, behind its first word. -/
def createIndex (unique : Bool) : Parser Node := do
  let concurrently ← acceptWord .CONCURRENTLY
  let lenient ← ifNotExists
  let s ← optionalIndexName lenient
  expectWord .ON
  let only ← acceptWord .ONLY
  let t ← tableName
  let method ← after .USING name
  let elements ← indexElements
  return Node.createIndex {
    name := s
    table := { t with only := only }
    method := method
    elements := elements
    condition := ← optionalCondition
    unique := unique
    concurrently := concurrently
    ifNotExists := lenient }

/-- Whether an object to create replaces another, in words before it. -/
def orReplace : Parser Bool := do
  if ← acceptWord .OR then
    expectWord .REPLACE
    return true
  else return false

/-- How long an object to create lasts, in a word before it. -/
def persistence : Parser Persistence := do
  match ← spelledWord with
  | some .TEMP | some .TEMPORARY => do
    skip
    return .temporary
  | some .UNLOGGED => do
    skip
    return .unlogged
  | _ => return .permanent

/-- An object to create.  A table is not replaced, and an index neither replaced
nor temporary. -/
def create : Parser Node := do
  let replace ← orReplace
  let p ← persistence
  match ← spelledWord, replace, p with
  | some .TABLE, false, p => do
    skip
    createTable p
  | some .VIEW, replace, p => do
    skip
    createView p replace
  | some .INDEX, false, .permanent => do
    skip
    createIndex false
  | some .UNIQUE, false, .permanent => do
    skip
    expectWord .INDEX
    createIndex true
  | _, _, _ => misplaced

/-! ### Removal -/

/-- The kind of objects to remove. -/
def objectKind : Parser ObjectKind := do
  readAs ((← spelledWord).bind ObjectKind.ofWord?) .objectKind

/-- Whether objects are removed without blocking writers; that goes for indexes
only. -/
def dropConcurrently (k : ObjectKind) : Parser Bool := do
  if k = .index then acceptWord .CONCURRENTLY else return false

/-- What happens to dependent objects, in a word at the end. -/
def dropBehavior : Parser DropBehavior := do
  if ← acceptWord .CASCADE then return .cascade
  else
    skipWord .RESTRICT
    return .restrict

/-- Objects to remove. -/
def drop : Parser Drop := do
  let k ← objectKind
  let concurrently ← dropConcurrently k
  let lenient ← ifExists
  let objects ← commaList dottedName
  return {
    kind := k
    objects := objects
    behavior := ← dropBehavior
    ifExists := lenient
    concurrently := concurrently }

/-- Whether sequences of emptied tables start over. -/
def restartIdentity : Parser Bool := do
  if ← acceptWord .RESTART then
    expectWord .IDENTITY
    return true
  else if ← acceptWord .CONTINUE then
    expectWord .IDENTITY
    return false
  else return false

/-- Tables to empty. -/
def truncate : Parser Truncate := do
  skipWord .TABLE
  let tables ← commaList changedTable
  let restart ← restartIdentity
  return ⟨tables, restart, ← dropBehavior⟩

end Grammar
end SqlSyntax
