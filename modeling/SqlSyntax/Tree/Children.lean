import SqlSyntax.Tree.Tag

/-!
# Children

The children of a node are the nodes right below it, clause by clause in the
order of the tree's fields.

## Main definitions

* `Node.children` — the children of a node.
-/

namespace SqlSyntax

/-- The name of a table or join as a node, if there is one. -/
def labelNodes (a : Option Alias) : List Node :=
  a.toList.map .tableAlias

/-- The children of a query. -/
def Select.children (s : Select) : List Node :=
  s.ctes.toList.map .ctes ++ s.distinct.getD [] ++ s.targets.map .target ++ s.sources
    ++ s.condition.toList ++ s.groups ++ s.having.toList ++ s.windows.map .window
    ++ s.rows.flatten ++ s.left.toList.map .select ++ s.right.toList.map .select
    ++ s.order.map .sortKey ++ s.offset.toList ++ s.limit.toList ++ s.locks.map .locking

/-- The children of an `INSERT` statement. -/
def Insert.children (s : Insert) : List Node :=
  s.ctes.toList.map .ctes ++ [.table s.table] ++ s.columns.map .target
    ++ s.source.toList.map .select ++ s.conflict.toList.map .onConflict
    ++ s.returning.map .target

/-- The children of an `UPDATE` statement. -/
def Update.children (s : Update) : List Node :=
  s.ctes.toList.map .ctes ++ [.table s.table] ++ s.assignments.map .target ++ s.sources
    ++ s.condition.toList ++ s.returning.map .target

/-- The children of a `DELETE` statement. -/
def Delete.children (s : Delete) : List Node :=
  s.ctes.toList.map .ctes ++ [.table s.table] ++ s.sources ++ s.condition.toList
    ++ s.returning.map .target

/-- The children of an `ON CONFLICT` clause. -/
def OnConflict.children (c : OnConflict) : List Node :=
  c.target.toList.map .conflictTarget ++ c.assignments.map .target ++ c.condition.toList

/-- The children of a conflict target. -/
def ConflictTarget.children (t : ConflictTarget) : List Node :=
  t.elements.map .indexElement ++ t.condition.toList

/-- The children of a call. -/
def Call.children (c : Call) : List Node :=
  c.args ++ c.order.map .sortKey ++ c.filter.toList ++ c.window.toList.map .window

/-- The distance of a frame bound, if it has one. -/
def FrameBound.distances : FrameBound → List Node
  | .preceding n | .following n => [n]
  | _ => []

/-- The distances of a frame. -/
def Frame.distances (f : Frame) : List Node :=
  f.start.distances ++ f.stop.elim [] FrameBound.distances

/-- The children of a window. -/
def Window.children (w : Window) : List Node :=
  w.partition ++ w.order.map .sortKey ++ w.frame.elim [] Frame.distances

/-- The children of a step. -/
def Step.children : Step → List Node
  | .subscript s => [.subscript s]
  | _ => []

/-- The children of an index definition. -/
def CreateIndex.children (s : CreateIndex) : List Node :=
  [.table s.table] ++ s.elements.map .indexElement ++ s.condition.toList

/-- The children of a constraint. -/
def Constraint.children (c : Constraint) : List Node :=
  c.expression.toList ++ c.refTable.toList.map .table

namespace Node

/-- The nodes right below a node, in source order. -/
def children : Node → List Node
  | select s => s.children
  | insert s => s.children
  | update s => s.children
  | delete s => s.children
  | createTable t es _ => .table t :: es
  | columnDef c => .typeName c.type :: c.constraints.map .constraint
  | constraint c => c.children
  | createIndex s => s.children
  | indexElement e => e.expression.toList
  | createView s => [.table s.view, .select s.query]
  | truncate s => s.tables.map .table
  | setting _ _ vs _ => vs
  | const v => [.literal v]
  | operation _ _ l r => l.toList ++ r.toList
  | junction _ args => args
  | nullTest a _ => [a]
  | truthTest a _ _ => [a]
  | subquery s => s.test.toList ++ [.select s.query]
  | call c => c.children
  | namedArg _ a => [a]
  | window w => w.children
  | cast a t => [a, .typeName t]
  | typeName t => t.modifiers
  | collate a _ => [a]
  | caseExpr o arms e => o.toList ++ arms.map .caseArm ++ e.toList
  | caseArm a => [a.condition, a.result]
  | array es => es
  | indirection a steps => a :: steps.flatMap Step.children
  | subscript s => s.lower.toList ++ s.upper.toList
  | row fs _ => fs
  | coalesce args => args
  | extremum _ args => args
  | target t => t.value.toList
  | sortKey k => [k.key]
  | table t => labelNodes t.label
  | derivedTable t => .select t.query :: labelNodes t.label
  | tableFunction t => .call t.call :: labelNodes t.label
  | join j => [j.left, j.right] ++ j.condition.toList ++ labelNodes j.label
  | ctes w => w.ctes.map .cte
  | cte c => [c.query]
  | onConflict c => c.children
  | conflictTarget t => t.children
  | locking l => l.tables.map .table
  | list items => items
  | drop _ | transaction _ | showSetting _ | column _ | param _ | valueFunction _ _ | default
  | tableAlias _ | literal _ => []

end Node

end SqlSyntax
