import SqlSyntax.Tree.Basic

/-!
# The syntax tree

The tree of a statement.  Clauses with a fixed place have a structure of their
own; `Node` is the sum of all that can stand in the tree, so that a place for an
expression or a table item is a place for a node.

## Main definitions

* `Node` — any node of the tree.
* `Select`, `Insert`, `Update`, `Delete` — queries and changes.
* `Target`, `SortKey`, `With`, `Cte`, `Join`, `DerivedTable`, `TableFunction` —
  their clauses.
* `TypeName`, `Call`, `Window`, `Subquery`, `Subscript` — parts of expressions.
* `ColumnDef`, `Constraint`, `CreateIndex`, `CreateView` — definitions.
-/

namespace SqlSyntax

mutual

/-- A query: a select list, rows of values, or a combination of two queries,
with the clauses that may follow any of them. -/
structure Select where
  /-- The expressions of `DISTINCT ON`; an empty list for plain `DISTINCT`. -/
  distinct : Option (List Node) := none
  /-- The output columns. -/
  targets : List Target := []
  /-- The items of `FROM`. -/
  sources : List Node := []
  /-- The condition of `WHERE`. -/
  condition : Option Node := none
  /-- The items of `GROUP BY`. -/
  groups : List Node := []
  /-- The condition of `HAVING`. -/
  having : Option Node := none
  /-- The windows named in `WINDOW`. -/
  windows : List Window := []
  /-- The rows of `VALUES`. -/
  rows : List (List Node) := []
  /-- The items of `ORDER BY`. -/
  order : List SortKey := []
  /-- The rows to skip. -/
  offset : Option Node := none
  /-- The rows to return; a null constant for all. -/
  limit : Option Node := none
  /-- How the number of rows is limited. -/
  limitStyle : LimitStyle := .unlimited
  /-- The locking clauses. -/
  locks : List Locking := []
  /-- The common table expressions. -/
  ctes : Option With := none
  /-- How two queries are combined. -/
  op : SetOp := .none
  /-- The combination keeps duplicates. -/
  all : Bool := false
  /-- The first of two combined queries. -/
  left : Option Select := none
  /-- The second of two combined queries. -/
  right : Option Select := none

/-- An output column, a column to fill, or an assignment. -/
structure Target where
  /-- The label or column name. -/
  name : Option String
  /-- The value. -/
  value : Option Node

/-- An item of `ORDER BY`. -/
structure SortKey where
  /-- What is sorted by. -/
  key : Node
  /-- In which direction. -/
  direction : SortDirection
  /-- Where nulls go. -/
  nulls : NullsOrder

/-- The common table expressions before a statement. -/
structure With where
  /-- The common table expressions. -/
  ctes : List Cte
  /-- They may refer to themselves. -/
  recursive : Bool

/-- A common table expression. -/
structure Cte where
  /-- Its name. -/
  name : String
  /-- The names of its columns. -/
  columns : List String
  /-- Whether it is computed once. -/
  materialization : Materialization
  /-- The query or change that it stands for. -/
  query : Node

/-- A subquery as an item of `FROM`. -/
structure DerivedTable where
  /-- It may refer to items before it. -/
  lateral : Bool
  /-- The subquery. -/
  query : Select
  /-- Its name. -/
  label : Option Alias

/-- A function call as an item of `FROM`. -/
structure TableFunction where
  /-- It may refer to items before it. -/
  lateral : Bool
  /-- Its rows are numbered. -/
  ordinality : Bool
  /-- The call. -/
  call : Call
  /-- Its name. -/
  label : Option Alias

/-- Two joined items of `FROM`. -/
structure Join where
  /-- Which rows without a partner are kept. -/
  kind : JoinKind
  /-- Join on all columns of the same name. -/
  natural : Bool := false
  /-- The first item. -/
  left : Node
  /-- The second item. -/
  right : Node
  /-- The columns of `USING`. -/
  columns : List String := []
  /-- The condition of `ON`. -/
  condition : Option Node := none
  /-- The name of a join in parentheses. -/
  label : Option Alias := none

/-- An `INSERT` statement. -/
structure Insert where
  /-- The table. -/
  table : TableRef
  /-- The columns to fill. -/
  columns : List Target
  /-- The rows; `none` for default values. -/
  source : Option Select
  /-- What to do with rows that violate a constraint. -/
  conflict : Option OnConflict
  /-- The output columns. -/
  returning : List Target
  /-- The common table expressions. -/
  ctes : Option With := none

/-- The `ON CONFLICT` clause. -/
structure OnConflict where
  /-- What to do. -/
  action : ConflictAction
  /-- Which conflicts are meant. -/
  target : Option ConflictTarget
  /-- The assignments of an update. -/
  assignments : List Target := []
  /-- Which rows to update. -/
  condition : Option Node := none

/-- The conflicts that a clause is meant for. -/
structure ConflictTarget where
  /-- The columns and expressions of an index. -/
  elements : List IndexElement
  /-- The condition of a partial index. -/
  condition : Option Node
  /-- The name of a constraint. -/
  constraint : Option String

/-- A column or expression of an index. -/
structure IndexElement where
  /-- The column. -/
  column : Option String
  /-- The expression, if it is no column. -/
  expression : Option Node
  /-- In which direction it is sorted. -/
  direction : SortDirection
  /-- Where nulls go. -/
  nulls : NullsOrder

/-- An `UPDATE` statement. -/
structure Update where
  /-- The table. -/
  table : TableRef
  /-- The assignments. -/
  assignments : List Target
  /-- Which rows to update. -/
  condition : Option Node
  /-- The items of `FROM`. -/
  sources : List Node
  /-- The output columns. -/
  returning : List Target
  /-- The common table expressions. -/
  ctes : Option With := none

/-- A `DELETE` statement. -/
structure Delete where
  /-- The table. -/
  table : TableRef
  /-- The items of `USING`. -/
  sources : List Node
  /-- Which rows to delete. -/
  condition : Option Node
  /-- The output columns. -/
  returning : List Target
  /-- The common table expressions. -/
  ctes : Option With := none

/-- The name of a type. -/
structure TypeName where
  /-- The dotted name. -/
  names : List String
  /-- The modifiers, such as a length. -/
  modifiers : List Node := []
  /-- The array dimensions; -1 for one without a size. -/
  bounds : List Int := []
  /-- A set of values. -/
  setof : Bool := false

/-- A function call. -/
structure Call where
  /-- The dotted name of the function. -/
  function : List String
  /-- The arguments. -/
  args : List Node
  /-- The order in which an aggregate takes its rows. -/
  order : List SortKey := []
  /-- Which rows an aggregate takes. -/
  filter : Option Node := none
  /-- The window of a window function. -/
  window : Option Window := none
  /-- All rows instead of arguments. -/
  star : Bool := false
  /-- Only distinct arguments. -/
  distinct : Bool := false
  /-- How the call is written. -/
  form : CallForm := .regular

/-- A window of rows. -/
structure Window where
  /-- The name of this window, or of the window referred to. -/
  name : Option String := none
  /-- The window that this one builds on. -/
  base : Option String := none
  /-- The items of `PARTITION BY`. -/
  partition : List Node := []
  /-- The items of `ORDER BY`. -/
  order : List SortKey := []
  /-- The frame. -/
  frame : Option Frame := none

/-- The frame of a window. -/
structure Frame where
  /-- Its unit. -/
  mode : FrameMode
  /-- Where it starts. -/
  start : FrameBound
  /-- Where it ends, if that is given. -/
  stop : Option FrameBound
  /-- The rows left out. -/
  exclusion : Option FrameExclusion

/-- An end of a window frame. -/
inductive FrameBound where
  | unboundedPreceding
  | preceding (distance : Node)
  | currentRow
  | following (distance : Node)
  | unboundedFollowing

/-- A subquery in an expression. -/
structure Subquery where
  /-- What it is used for. -/
  use : SubqueryUse
  /-- What its rows are compared with. -/
  test : Option Node := none
  /-- The comparison; `none` for `IN`. -/
  op : Option String := none
  /-- The query. -/
  query : Select

/-- An arm of a `CASE` expression. -/
structure CaseArm where
  /-- The condition, or the value to compare with. -/
  condition : Node
  /-- The result. -/
  result : Node

/-- A subscript or slice. -/
structure Subscript where
  /-- It has a colon. -/
  slice : Bool
  /-- The lower bound of a slice. -/
  lower : Option Node
  /-- The subscript, or the upper bound of a slice. -/
  upper : Option Node

/-- A step into a value. -/
inductive Step where
  /-- To an element or slice. -/
  | subscript (s : Subscript)
  /-- To a field. -/
  | field (name : String)
  /-- To all fields. -/
  | star

/-- A column of a new table. -/
structure ColumnDef where
  /-- Its name. -/
  name : String
  /-- Its type. -/
  type : TypeName
  /-- Its constraints. -/
  constraints : List Constraint
  /-- Its collation; empty if there is none. -/
  collation : List String

/-- A constraint of a column or table. -/
structure Constraint where
  /-- Its kind. -/
  kind : ConstraintKind
  /-- Its name. -/
  name : Option String := none
  /-- The condition to check, or the default value. -/
  expression : Option Node := none
  /-- The columns of a key of the table. -/
  keys : List String := []
  /-- The table that a foreign key refers to. -/
  refTable : Option TableRef := none
  /-- The columns of a foreign key of the table. -/
  columns : List String := []
  /-- The columns that a foreign key refers to. -/
  refColumns : List String := []
  /-- What to do when the row referred to is deleted. -/
  onDelete : ForeignKeyAction := .noAction
  /-- What to do when the row referred to is updated. -/
  onUpdate : ForeignKeyAction := .noAction

/-- A `CREATE INDEX` statement. -/
structure CreateIndex where
  /-- The name of the index. -/
  name : Option String
  /-- The table. -/
  table : TableRef
  /-- The access method. -/
  method : Option String
  /-- The columns and expressions. -/
  elements : List IndexElement
  /-- The condition of a partial index. -/
  condition : Option Node
  /-- No two rows are equal. -/
  unique : Bool
  /-- Without blocking writers. -/
  concurrently : Bool
  /-- An index of the same name is no error. -/
  ifNotExists : Bool

/-- A `CREATE VIEW` statement. -/
structure CreateView where
  /-- The view. -/
  view : TableRef
  /-- The names of its columns. -/
  columns : List String
  /-- The query that it stands for. -/
  query : Select
  /-- A view of the same name is replaced. -/
  replace : Bool

/-- Any node of the tree. -/
inductive Node where
  | select (s : Select)
  | insert (s : Insert)
  | update (s : Update)
  | delete (s : Delete)
  /-- A `CREATE TABLE` statement with its columns and constraints. -/
  | createTable (table : TableRef) (elements : List Node) (ifNotExists : Bool)
  | columnDef (c : ColumnDef)
  | constraint (c : Constraint)
  | createIndex (s : CreateIndex)
  | indexElement (e : IndexElement)
  | createView (s : CreateView)
  | drop (s : Drop)
  | truncate (s : Truncate)
  | transaction (s : Transaction)
  /-- A `SET` or `RESET` statement. -/
  | setting (action : SettingAction) (name : Option String) (values : List Node) (isLocal : Bool)
  /-- A `SHOW` statement. -/
  | showSetting (name : String)
  /-- A column, or all columns. -/
  | column (fields : List ColumnField)
  | param (number : Int)
  | const (value : Literal)
  /-- An operator or predicate with up to two operands. -/
  | operation (kind : OperationKind) (name : String) (left right : Option Node)
  /-- Operands joined by `AND` or `OR`, or the operand of `NOT`. -/
  | junction (op : Junction) (args : List Node)
  | nullTest (arg : Node) (negated : Bool)
  | truthTest (arg : Node) (truth : Truth) (negated : Bool)
  | subquery (s : Subquery)
  | call (c : Call)
  | namedArg (name : String) (arg : Node)
  | window (w : Window)
  | cast (arg : Node) (type : TypeName)
  | typeName (t : TypeName)
  | collate (arg : Node) (collation : List String)
  | caseExpr (operand : Option Node) (arms : List CaseArm) (otherwise : Option Node)
  | caseArm (a : CaseArm)
  | array (elements : List Node)
  | indirection (arg : Node) (steps : List Step)
  | subscript (s : Subscript)
  /-- A row; `explicit` if the word `ROW` was written. -/
  | row (fields : List Node) (explicit : Bool)
  | coalesce (args : List Node)
  | extremum (op : Extremum) (args : List Node)
  | valueFunction (function : ValueFunction) (precision : Option Int)
  /-- The default value of a column. -/
  | default
  | target (t : Target)
  | sortKey (k : SortKey)
  | table (t : TableRef)
  | tableAlias (a : Alias)
  | derivedTable (t : DerivedTable)
  | tableFunction (t : TableFunction)
  | join (j : Join)
  | ctes (w : With)
  | cte (c : Cte)
  | onConflict (c : OnConflict)
  | conflictTarget (t : ConflictTarget)
  | locking (l : Locking)
  /-- Expressions without more than their order. -/
  | list (items : List Node)
  | literal (v : Literal)

end

end SqlSyntax
