import SqlSyntax.Tree.Node

/-!
# Node tags

The tag of a node is the kind that it has in PostgreSQL's own parse tree; the
name of a tag is the name of that kind behind `T_`.

## Main definitions

* `Tag`, `Tag.name` — tags and their names.
* `Node.tag` — the tag of a node.
* `Node.copyFrom` — a node replaced by another of the same tag.
-/

namespace SqlSyntax

/-- The kinds of nodes. -/
inductive Tag
  | statement
  | select | insert | update | delete | createTable | columnDef | constraint | createIndex
  | indexElement | createView | drop | truncate | transaction | setting | showSetting
  | column | param | const | operation | junction | nullTest | truthTest | subquery | call
  | namedArg | window | cast | typeName | collate | caseExpr | caseArm | array | indirection
  | subscript | row | coalesce | extremum | valueFunction | default | target | sortKey | table
  | tableAlias | derivedTable | tableFunction | join | ctes | cte | onConflict | conflictTarget
  | locking | list
  | string | integer | float | boolean | bits | null
  deriving DecidableEq, Repr, Inhabited

namespace Tag

/-- The name of a tag. -/
def name : Tag → String
  | statement => "T_RawStmt"
  | select => "T_SelectStmt"
  | insert => "T_InsertStmt"
  | update => "T_UpdateStmt"
  | delete => "T_DeleteStmt"
  | createTable => "T_CreateStmt"
  | columnDef => "T_ColumnDef"
  | constraint => "T_Constraint"
  | createIndex => "T_IndexStmt"
  | indexElement => "T_IndexElem"
  | createView => "T_ViewStmt"
  | drop => "T_DropStmt"
  | truncate => "T_TruncateStmt"
  | transaction => "T_TransactionStmt"
  | setting => "T_VariableSetStmt"
  | showSetting => "T_VariableShowStmt"
  | column => "T_ColumnRef"
  | param => "T_ParamRef"
  | const => "T_AConst"
  | operation => "T_AExpr"
  | junction => "T_BoolExpr"
  | nullTest => "T_NullTest"
  | truthTest => "T_BooleanTest"
  | subquery => "T_SubLink"
  | call => "T_FuncCall"
  | namedArg => "T_NamedArgExpr"
  | window => "T_WindowDef"
  | cast => "T_TypeCast"
  | typeName => "T_TypeName"
  | collate => "T_CollateClause"
  | caseExpr => "T_CaseExpr"
  | caseArm => "T_CaseWhen"
  | array => "T_AArrayExpr"
  | indirection => "T_AIndirection"
  | subscript => "T_AIndices"
  | row => "T_RowExpr"
  | coalesce => "T_CoalesceExpr"
  | extremum => "T_MinMaxExpr"
  | valueFunction => "T_SqlValueFunction"
  | default => "T_SetToDefault"
  | target => "T_ResTarget"
  | sortKey => "T_SortBy"
  | table => "T_RangeVar"
  | tableAlias => "T_Alias"
  | derivedTable => "T_RangeSubselect"
  | tableFunction => "T_RangeFunction"
  | join => "T_JoinExpr"
  | ctes => "T_WithClause"
  | cte => "T_CommonTableExpr"
  | onConflict => "T_OnConflictClause"
  | conflictTarget => "T_InferClause"
  | locking => "T_LockingClause"
  | list => "T_List"
  | string => "T_String"
  | integer => "T_Integer"
  | float => "T_Float"
  | boolean => "T_Boolean"
  | bits => "T_BitString"
  | null => "T_Null"

end Tag

/-- The tag of a literal as a node. -/
def Literal.tag : Literal → Tag
  | .string _ => .string
  | .integer _ => .integer
  | .float _ => .float
  | .boolean _ => .boolean
  | .bits _ => .bits
  | .null => .null

namespace Node

/-- The tag of a node. -/
def tag : Node → Tag
  | select _ => .select
  | insert _ => .insert
  | update _ => .update
  | delete _ => .delete
  | createTable _ _ _ => .createTable
  | columnDef _ => .columnDef
  | constraint _ => .constraint
  | createIndex _ => .createIndex
  | indexElement _ => .indexElement
  | createView _ => .createView
  | drop _ => .drop
  | truncate _ => .truncate
  | transaction _ => .transaction
  | setting _ _ _ _ => .setting
  | showSetting _ => .showSetting
  | column _ => .column
  | param _ => .param
  | const _ => .const
  | operation _ _ _ _ => .operation
  | junction _ _ => .junction
  | nullTest _ _ => .nullTest
  | truthTest _ _ _ => .truthTest
  | subquery _ => .subquery
  | call _ => .call
  | namedArg _ _ => .namedArg
  | window _ => .window
  | cast _ _ => .cast
  | typeName _ => .typeName
  | collate _ _ => .collate
  | caseExpr _ _ _ => .caseExpr
  | caseArm _ => .caseArm
  | array _ => .array
  | indirection _ _ => .indirection
  | subscript _ => .subscript
  | row _ _ => .row
  | coalesce _ => .coalesce
  | extremum _ _ => .extremum
  | valueFunction _ _ => .valueFunction
  | default => .default
  | target _ => .target
  | sortKey _ => .sortKey
  | table _ => .table
  | tableAlias _ => .tableAlias
  | derivedTable _ => .derivedTable
  | tableFunction _ => .tableFunction
  | join _ => .join
  | ctes _ => .ctes
  | cte _ => .cte
  | onConflict _ => .onConflict
  | conflictTarget _ => .conflictTarget
  | locking _ => .locking
  | list _ => .list
  | literal v => v.tag

/-- A node cannot be replaced by one of another tag. -/
structure TagMismatch where
  /-- The tag of the node to replace. -/
  expected : Tag
  /-- The tag of the node to put in its place. -/
  found : Tag
  deriving DecidableEq, Repr

/-- The message for a tag mismatch. -/
def TagMismatch.message (e : TagMismatch) : String :=
  "cannot copy " ++ e.found.name ++ " into " ++ e.expected.name

/-- The node that `target` becomes when `source` is copied into it. -/
def copyFrom (target source : Node) : Except TagMismatch Node :=
  if target.tag = source.tag then .ok source else .error ⟨target.tag, source.tag⟩

end Node
end SqlSyntax
