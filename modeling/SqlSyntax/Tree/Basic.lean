import SqlSyntax.Literal

/-!
# Parts of the syntax tree without subtrees

The choices that statements and expressions offer, each with its words, and
the leaves of the tree that are more than a choice: references by name and the
statements that contain names only.

## Main definitions

* `ColumnField`, `Alias`, `TableRef` — references to columns and tables.
* `OperationKind`, `Junction`, `Truth`, `SubqueryUse`, `CallForm`,
  `Extremum`, `ValueFunction` — expressions.
* `SetOp`, `LimitStyle`, `SortDirection`, `NullsOrder`, `JoinKind`,
  `Materialization`, `Locking` — queries.
* `ConstraintKind`, `ForeignKeyAction`, `Drop`, `Truncate` — definitions.
* `Transaction`, `SettingAction` — control.
-/

namespace SqlSyntax

/-! ### Names -/

/-- A part of a column reference. -/
inductive ColumnField
  /-- A name. -/
  | name (s : String)
  /-- All columns. -/
  | star
  deriving DecidableEq, Repr, Inhabited

/-- A name for a table, with names for its columns. -/
structure Alias where
  /-- The name of the table. -/
  name : String
  /-- The names of its columns; none if they keep their own. -/
  columns : List String := []
  deriving DecidableEq, Repr, Inhabited

/-- How long a new table lasts. -/
inductive Persistence
  | permanent | unlogged | temporary
  deriving DecidableEq, Repr, Inhabited

/-- A table referred to by name. -/
structure TableRef where
  /-- The database. -/
  catalog : Option String := none
  /-- The schema. -/
  schema : Option String := none
  /-- The table. -/
  name : String
  /-- Leave out the tables that inherit from it. -/
  only : Bool := false
  /-- How long the table lasts, when it is created. -/
  persistence : Persistence := .permanent
  /-- Another name for it. -/
  label : Option Alias := none
  deriving DecidableEq, Repr, Inhabited

namespace TableRef

/-- The table with one to three dotted names. -/
def ofNames? : List String → Option TableRef
  | [t] => some { name := t }
  | [s, t] => some { schema := some s, name := t }
  | [c, s, t] => some { catalog := some c, schema := some s, name := t }
  | _ => none

/-- The dotted names of a table. -/
def names (t : TableRef) : List String :=
  t.catalog.toList ++ t.schema.toList ++ [t.name]

end TableRef

/-! ### Expressions -/

/-- What an operation with up to two operands computes. -/
inductive OperationKind
  /-- An operator between its operands or before the only one. -/
  | op
  /-- An operator that holds for some element of an array. -/
  | opAny
  /-- An operator that holds for all elements of an array. -/
  | opAll
  /-- `IS DISTINCT FROM`. -/
  | distinct
  /-- `IS NOT DISTINCT FROM`. -/
  | notDistinct
  /-- `NULLIF`. -/
  | nullIf
  /-- `IN` or `NOT IN` a list. -/
  | inList
  /-- `LIKE` or `NOT LIKE`. -/
  | like
  /-- `ILIKE` or `NOT ILIKE`. -/
  | ilike
  /-- `SIMILAR TO` or `NOT SIMILAR TO`. -/
  | similar
  /-- `BETWEEN`. -/
  | between
  /-- `NOT BETWEEN`. -/
  | notBetween
  /-- `BETWEEN SYMMETRIC`. -/
  | betweenSymmetric
  /-- `NOT BETWEEN SYMMETRIC`. -/
  | notBetweenSymmetric
  deriving DecidableEq, Repr, Inhabited

/-- A connective of truth values. -/
inductive Junction
  | and | or | not
  deriving DecidableEq, Repr, Inhabited

/-- A truth value of three-valued logic. -/
inductive Truth
  | yes | no | unknown
  deriving DecidableEq, Repr, Inhabited

/-- The word for a truth value after `IS`. -/
def Truth.word : Truth → Keyword
  | yes => .TRUE
  | no => .FALSE
  | unknown => .UNKNOWN

/-- What a subquery in an expression is used for. -/
inductive SubqueryUse
  /-- Whether it has rows. -/
  | existence
  /-- Whether a comparison holds for all rows. -/
  | forAll
  /-- Whether a comparison holds for some row. -/
  | forAny
  /-- Its only value. -/
  | scalar
  /-- The array of its values. -/
  | array
  deriving DecidableEq, Repr, Inhabited

/-- How a function call is written. -/
inductive CallForm
  /-- A name and arguments in parentheses. -/
  | regular
  /-- With a syntax of its own. -/
  | special
  deriving DecidableEq, Repr, Inhabited

/-- The functions that choose an argument by size. -/
inductive Extremum
  | greatest | least
  deriving DecidableEq, Repr, Inhabited

/-- The word for a function that chooses by size. -/
def Extremum.word : Extremum → Keyword
  | greatest => .GREATEST
  | least => .LEAST

/-- The functions written without parentheses. -/
inductive ValueFunction
  | currentDate | currentTime | currentTimestamp | localTime | localTimestamp
  | currentRole | currentUser | user | sessionUser | systemUser
  | currentCatalog | currentSchema
  deriving DecidableEq, Repr, Inhabited

namespace ValueFunction

/-- The word for a function written without parentheses. -/
def word : ValueFunction → Keyword
  | currentDate => .CURRENT_DATE
  | currentTime => .CURRENT_TIME
  | currentTimestamp => .CURRENT_TIMESTAMP
  | localTime => .LOCALTIME
  | localTimestamp => .LOCALTIMESTAMP
  | currentRole => .CURRENT_ROLE
  | currentUser => .CURRENT_USER
  | user => .USER
  | sessionUser => .SESSION_USER
  | systemUser => .SYSTEM_USER
  | currentCatalog => .CURRENT_CATALOG
  | currentSchema => .CURRENT_SCHEMA

/-- Whether the function takes a precision. -/
def takesPrecision : ValueFunction → Bool
  | currentTime | currentTimestamp | localTime | localTimestamp => true
  | _ => false

end ValueFunction

/-- The unit of a window frame. -/
inductive FrameMode
  | rows | range | groups
  deriving DecidableEq, Repr, Inhabited

/-- The word for a frame unit. -/
def FrameMode.word : FrameMode → Keyword
  | rows => .ROWS
  | range => .RANGE
  | groups => .GROUPS

/-- The rows that a window frame leaves out. -/
inductive FrameExclusion
  | currentRow | group | ties | noOthers
  deriving DecidableEq, Repr, Inhabited

/-- The words of a frame exclusion. -/
def FrameExclusion.words : FrameExclusion → List Keyword
  | currentRow => [.CURRENT, .ROW]
  | group => [.GROUP]
  | ties => [.TIES]
  | noOthers => [.NO, .OTHERS]

/-! ### Queries -/

/-- How two queries are combined; `none` stands for a query that is not. -/
inductive SetOp
  | none | union | intersect | except
  deriving DecidableEq, Repr, Inhabited

namespace SetOp

/-- How tightly a combination binds. -/
def precedence : SetOp → Nat
  | none => 3
  | intersect => 2
  | union | except => 1

/-- The words for a combination. -/
def words : SetOp → List Keyword
  | none => []
  | union => [.UNION]
  | intersect => [.INTERSECT]
  | except => [.EXCEPT]

end SetOp

/-- How the number of rows is limited. -/
inductive LimitStyle
  /-- Not at all. -/
  | unlimited
  /-- By a count. -/
  | count
  /-- By a count, with the rows that equal the last in sort order. -/
  | withTies
  deriving DecidableEq, Repr, Inhabited

/-- The direction of a sort. -/
inductive SortDirection
  | unspecified | asc | desc
  /-- By an operator. -/
  | byOperator (op : String)
  deriving DecidableEq, Repr, Inhabited

/-- Where a sort puts nulls. -/
inductive NullsOrder
  | unspecified | first | last
  deriving DecidableEq, Repr, Inhabited

/-- The words for the place of nulls. -/
def NullsOrder.words : NullsOrder → List Keyword
  | unspecified => []
  | first => [.NULLS, .FIRST]
  | last => [.NULLS, .LAST]

/-- The kind of a join. -/
inductive JoinKind
  | inner | left | full | right
  deriving DecidableEq, Repr, Inhabited

/-- Whether a common table expression is computed once. -/
inductive Materialization
  | unspecified | always | never
  deriving DecidableEq, Repr, Inhabited

/-- The words of a materialization. -/
def Materialization.words : Materialization → List Keyword
  | unspecified => []
  | always => [.MATERIALIZED]
  | never => [.NOT, .MATERIALIZED]

/-- How strongly rows are locked. -/
inductive LockStrength
  | update | noKeyUpdate | share | keyShare
  deriving DecidableEq, Repr, Inhabited

/-- The words of a lock strength. -/
def LockStrength.words : LockStrength → List Keyword
  | update => [.FOR, .UPDATE]
  | noKeyUpdate => [.FOR, .NO, .KEY, .UPDATE]
  | share => [.FOR, .SHARE]
  | keyShare => [.FOR, .KEY, .SHARE]

/-- What happens at a row that is locked already. -/
inductive LockWait
  | block | skip | fail
  deriving DecidableEq, Repr, Inhabited

/-- The words of a wait policy. -/
def LockWait.words : LockWait → List Keyword
  | block => []
  | skip => [.SKIP, .LOCKED]
  | fail => [.NOWAIT]

/-- A locking clause of a query. -/
structure Locking where
  /-- The tables whose rows are locked; none for all. -/
  tables : List TableRef
  /-- How strongly. -/
  strength : LockStrength
  /-- What happens at a locked row. -/
  wait : LockWait
  deriving DecidableEq, Repr, Inhabited

/-- What is done with a row that violates a constraint. -/
inductive ConflictAction
  | nothing | update
  deriving DecidableEq, Repr, Inhabited

/-! ### Definitions -/

/-- The kind of a constraint. -/
inductive ConstraintKind
  | null | notNull | default | check | primary | unique | foreign
  deriving DecidableEq, Repr, Inhabited

/-- What a foreign key does when the row it refers to changes. -/
inductive ForeignKeyAction
  | noAction | restrict | cascade | setNull | setDefault
  deriving DecidableEq, Repr, Inhabited

/-- The words of a foreign key action. -/
def ForeignKeyAction.words : ForeignKeyAction → List Keyword
  | noAction => [.NO, .ACTION]
  | restrict => [.RESTRICT]
  | cascade => [.CASCADE]
  | setNull => [.SET, .NULL]
  | setDefault => [.SET, .DEFAULT]

/-- The kind of object that a `DROP` removes. -/
inductive ObjectKind
  | table | view | index | sequence | schema
  deriving DecidableEq, Repr, Inhabited

/-- The word for an object kind. -/
def ObjectKind.word : ObjectKind → Keyword
  | table => .TABLE
  | view => .VIEW
  | index => .INDEX
  | sequence => .SEQUENCE
  | schema => .SCHEMA

/-- What happens to objects that depend on a removed one. -/
inductive DropBehavior
  | restrict | cascade
  deriving DecidableEq, Repr, Inhabited

/-- A `DROP` statement. -/
structure Drop where
  /-- The kind of the objects. -/
  kind : ObjectKind
  /-- Their dotted names. -/
  objects : List (List String)
  /-- What happens to dependent objects. -/
  behavior : DropBehavior
  /-- Missing objects are no error. -/
  ifExists : Bool
  /-- Without blocking writers. -/
  concurrently : Bool
  deriving DecidableEq, Repr, Inhabited

/-- A `TRUNCATE` statement. -/
structure Truncate where
  /-- The tables to empty. -/
  tables : List TableRef
  /-- Sequences of the tables start over. -/
  restartIdentity : Bool
  /-- What happens to dependent tables. -/
  behavior : DropBehavior
  deriving DecidableEq, Repr, Inhabited

/-! ### Control -/

/-- The kind of a transaction statement. -/
inductive TransactionKind
  | begin | start | commit | rollback | savepoint | release | rollbackTo
  deriving DecidableEq, Repr, Inhabited

/-- How far a transaction sees others. -/
inductive IsolationLevel
  | readUncommitted | readCommitted | repeatableRead | serializable
  deriving DecidableEq, Repr, Inhabited

/-- The words of an isolation level. -/
def IsolationLevel.words : IsolationLevel → List Keyword
  | readUncommitted => [.READ, .UNCOMMITTED]
  | readCommitted => [.READ, .COMMITTED]
  | repeatableRead => [.REPEATABLE, .READ]
  | serializable => [.SERIALIZABLE]

/-- A characteristic of a transaction. -/
inductive TransactionMode
  | isolation (level : IsolationLevel)
  | readOnly | readWrite | deferrable | notDeferrable
  deriving DecidableEq, Repr, Inhabited

/-- The words of a transaction characteristic. -/
def TransactionMode.words : TransactionMode → List Keyword
  | isolation level => .ISOLATION :: .LEVEL :: level.words
  | readOnly => [.READ, .ONLY]
  | readWrite => [.READ, .WRITE]
  | deferrable => [.DEFERRABLE]
  | notDeferrable => [.NOT, .DEFERRABLE]

/-- A transaction statement. -/
structure Transaction where
  /-- What it does. -/
  kind : TransactionKind
  /-- The characteristics of a new transaction. -/
  modes : List TransactionMode := []
  /-- The name of a savepoint. -/
  savepoint : Option String := none
  /-- A new transaction follows with the same characteristics. -/
  chain : Bool := false
  deriving DecidableEq, Repr, Inhabited

/-- What happens to a configuration parameter. -/
inductive SettingAction
  | set | setDefault | reset | resetAll
  deriving DecidableEq, Repr, Inhabited

end SqlSyntax
