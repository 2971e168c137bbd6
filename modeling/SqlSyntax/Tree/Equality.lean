import SqlSyntax.Tree.Node

/-!
# Equality of trees

Two trees are compared part by part, down to the names and literals in them.

## Main definitions

* `Node.same`, `Select.same` — whether two trees are equal.
-/

namespace SqlSyntax

mutual

/-- Whether two nodes are equal. -/
def Node.same : Node → Node → Bool
  | .select a, .select b => a.same b
  | .insert a, .insert b => a.same b
  | .update a, .update b => a.same b
  | .delete a, .delete b => a.same b
  | .createTable t es i, .createTable t' es' i' => t == t' && sameNodes es es' && i == i'
  | .columnDef a, .columnDef b => a.same b
  | .constraint a, .constraint b => a.same b
  | .createIndex a, .createIndex b => a.same b
  | .indexElement a, .indexElement b => a.same b
  | .createView a, .createView b => a.same b
  | .drop a, .drop b => a == b
  | .truncate a, .truncate b => a == b
  | .transaction a, .transaction b => a == b
  | .setting k n vs l, .setting k' n' vs' l' =>
    k == k' && n == n' && sameNodes vs vs' && l == l'
  | .showSetting n, .showSetting n' => n == n'
  | .column fs, .column fs' => fs == fs'
  | .param n, .param n' => n == n'
  | .const v, .const v' => v == v'
  | .operation k n l r, .operation k' n' l' r' =>
    k == k' && n == n' && sameNode? l l' && sameNode? r r'
  | .junction o as, .junction o' as' => o == o' && sameNodes as as'
  | .nullTest a b, .nullTest a' b' => a.same a' && b == b'
  | .truthTest a t b, .truthTest a' t' b' => a.same a' && t == t' && b == b'
  | .subquery a, .subquery b => a.same b
  | .call a, .call b => a.same b
  | .namedArg n a, .namedArg n' a' => n == n' && a.same a'
  | .window a, .window b => a.same b
  | .cast a t, .cast a' t' => a.same a' && t.same t'
  | .typeName a, .typeName b => a.same b
  | .collate a c, .collate a' c' => a.same a' && c == c'
  | .caseExpr o as e, .caseExpr o' as' e' => sameNode? o o' && sameArms as as' && sameNode? e e'
  | .caseArm a, .caseArm b => a.same b
  | .array es, .array es' => sameNodes es es'
  | .indirection a ss, .indirection a' ss' => a.same a' && sameSteps ss ss'
  | .subscript a, .subscript b => a.same b
  | .row fs e, .row fs' e' => sameNodes fs fs' && e == e'
  | .coalesce as, .coalesce as' => sameNodes as as'
  | .extremum o as, .extremum o' as' => o == o' && sameNodes as as'
  | .valueFunction f p, .valueFunction f' p' => f == f' && p == p'
  | .default, .default => true
  | .target a, .target b => a.same b
  | .sortKey a, .sortKey b => a.same b
  | .table a, .table b => a == b
  | .tableAlias a, .tableAlias b => a == b
  | .derivedTable a, .derivedTable b => a.same b
  | .tableFunction a, .tableFunction b => a.same b
  | .join a, .join b => a.same b
  | .ctes a, .ctes b => a.same b
  | .cte a, .cte b => a.same b
  | .onConflict a, .onConflict b => a.same b
  | .conflictTarget a, .conflictTarget b => a.same b
  | .locking a, .locking b => a == b
  | .list as, .list as' => sameNodes as as'
  | .literal a, .literal b => a == b
  | _, _ => false
termination_by structural a => a

/-- Whether two lists of nodes are equal. -/
def sameNodes : List Node → List Node → Bool
  | [], [] => true
  | a :: as, b :: bs => a.same b && sameNodes as bs
  | _, _ => false
termination_by structural a => a

/-- Whether two optional nodes are equal. -/
def sameNode? : Option Node → Option Node → Bool
  | none, none => true
  | some a, some b => a.same b
  | _, _ => false
termination_by structural a => a

/-- Whether two optional lists of nodes are equal. -/
def sameNodes? : Option (List Node) → Option (List Node) → Bool
  | none, none => true
  | some as, some bs => sameNodes as bs
  | _, _ => false
termination_by structural a => a

/-- Whether two lists of rows are equal. -/
def sameRows : List (List Node) → List (List Node) → Bool
  | [], [] => true
  | a :: as, b :: bs => sameNodes a b && sameRows as bs
  | _, _ => false
termination_by structural a => a

/-- Whether two queries are equal. -/
def Select.same : Select → Select → Bool
  | ⟨distinct, targets, sources, condition, groups, having, windows, rows, order, offset, limit,
      style, locks, ctes, op, all, left, right⟩, s =>
    sameNodes? distinct s.distinct && sameTargets targets s.targets
      && sameNodes sources s.sources && sameNode? condition s.condition
      && sameNodes groups s.groups && sameNode? having s.having && sameWindows windows s.windows
      && sameRows rows s.rows && sameSortKeys order s.order && sameNode? offset s.offset
      && sameNode? limit s.limit && style == s.limitStyle && locks == s.locks
      && sameWith? ctes s.ctes && op == s.op && all == s.all && sameSelect? left s.left
      && sameSelect? right s.right
termination_by structural a => a

/-- Whether two optional queries are equal. -/
def sameSelect? : Option Select → Option Select → Bool
  | none, none => true
  | some a, some b => a.same b
  | _, _ => false
termination_by structural a => a

/-- Whether two targets are equal. -/
def Target.same : Target → Target → Bool
  | ⟨name, value⟩, t => name == t.name && sameNode? value t.value
termination_by structural a => a

/-- Whether two lists of targets are equal. -/
def sameTargets : List Target → List Target → Bool
  | [], [] => true
  | a :: as, b :: bs => a.same b && sameTargets as bs
  | _, _ => false
termination_by structural a => a

/-- Whether two sort keys are equal. -/
def SortKey.same : SortKey → SortKey → Bool
  | ⟨key, direction, nulls⟩, k =>
    key.same k.key && direction == k.direction && nulls == k.nulls
termination_by structural a => a

/-- Whether two lists of sort keys are equal. -/
def sameSortKeys : List SortKey → List SortKey → Bool
  | [], [] => true
  | a :: as, b :: bs => a.same b && sameSortKeys as bs
  | _, _ => false
termination_by structural a => a

/-- Whether two lists of common table expressions are equal. -/
def With.same : With → With → Bool
  | ⟨items, recursive⟩, w => sameCtes items w.ctes && recursive == w.recursive
termination_by structural a => a

/-- Whether two optional `WITH` clauses are equal. -/
def sameWith? : Option With → Option With → Bool
  | none, none => true
  | some a, some b => a.same b
  | _, _ => false
termination_by structural a => a

/-- Whether two common table expressions are equal. -/
def Cte.same : Cte → Cte → Bool
  | ⟨name, columns, materialization, query⟩, c =>
    name == c.name && columns == c.columns && materialization == c.materialization
      && query.same c.query
termination_by structural a => a

/-- Whether two lists of common table expressions are equal. -/
def sameCtes : List Cte → List Cte → Bool
  | [], [] => true
  | a :: as, b :: bs => a.same b && sameCtes as bs
  | _, _ => false
termination_by structural a => a

/-- Whether two subqueries as table items are equal. -/
def DerivedTable.same : DerivedTable → DerivedTable → Bool
  | ⟨lateral, query, label⟩, t => lateral == t.lateral && query.same t.query && label == t.label
termination_by structural a => a

/-- Whether two calls as table items are equal. -/
def TableFunction.same : TableFunction → TableFunction → Bool
  | ⟨lateral, ordinality, call, label⟩, t =>
    lateral == t.lateral && ordinality == t.ordinality && call.same t.call && label == t.label
termination_by structural a => a

/-- Whether two joins are equal. -/
def Join.same : Join → Join → Bool
  | ⟨kind, natural, left, right, columns, condition, label⟩, j =>
    kind == j.kind && natural == j.natural && left.same j.left && right.same j.right
      && columns == j.columns && sameNode? condition j.condition && label == j.label
termination_by structural a => a

/-- Whether two `INSERT` statements are equal. -/
def Insert.same : Insert → Insert → Bool
  | ⟨table, columns, source, conflict, returning, ctes⟩, s =>
    table == s.table && sameTargets columns s.columns && sameSelect? source s.source
      && sameConflict? conflict s.conflict && sameTargets returning s.returning
      && sameWith? ctes s.ctes
termination_by structural a => a

/-- Whether two `ON CONFLICT` clauses are equal. -/
def OnConflict.same : OnConflict → OnConflict → Bool
  | ⟨action, target, assignments, condition⟩, c =>
    action == c.action && sameConflictTarget? target c.target
      && sameTargets assignments c.assignments && sameNode? condition c.condition
termination_by structural a => a

/-- Whether two optional `ON CONFLICT` clauses are equal. -/
def sameConflict? : Option OnConflict → Option OnConflict → Bool
  | none, none => true
  | some a, some b => a.same b
  | _, _ => false
termination_by structural a => a

/-- Whether two conflict targets are equal. -/
def ConflictTarget.same : ConflictTarget → ConflictTarget → Bool
  | ⟨elements, condition, constraint⟩, t =>
    sameElements elements t.elements && sameNode? condition t.condition
      && constraint == t.constraint
termination_by structural a => a

/-- Whether two optional conflict targets are equal. -/
def sameConflictTarget? : Option ConflictTarget → Option ConflictTarget → Bool
  | none, none => true
  | some a, some b => a.same b
  | _, _ => false
termination_by structural a => a

/-- Whether two elements of an index are equal. -/
def IndexElement.same : IndexElement → IndexElement → Bool
  | ⟨column, expression, direction, nulls⟩, e =>
    column == e.column && sameNode? expression e.expression && direction == e.direction
      && nulls == e.nulls
termination_by structural a => a

/-- Whether two lists of elements of an index are equal. -/
def sameElements : List IndexElement → List IndexElement → Bool
  | [], [] => true
  | a :: as, b :: bs => a.same b && sameElements as bs
  | _, _ => false
termination_by structural a => a

/-- Whether two `UPDATE` statements are equal. -/
def Update.same : Update → Update → Bool
  | ⟨table, assignments, condition, sources, returning, ctes⟩, s =>
    table == s.table && sameTargets assignments s.assignments && sameNode? condition s.condition
      && sameNodes sources s.sources && sameTargets returning s.returning
      && sameWith? ctes s.ctes
termination_by structural a => a

/-- Whether two `DELETE` statements are equal. -/
def Delete.same : Delete → Delete → Bool
  | ⟨table, sources, condition, returning, ctes⟩, s =>
    table == s.table && sameNodes sources s.sources && sameNode? condition s.condition
      && sameTargets returning s.returning && sameWith? ctes s.ctes
termination_by structural a => a

/-- Whether two type names are equal. -/
def TypeName.same : TypeName → TypeName → Bool
  | ⟨names, modifiers, bounds, setof⟩, t =>
    names == t.names && sameNodes modifiers t.modifiers && bounds == t.bounds
      && setof == t.setof
termination_by structural a => a

/-- Whether two calls are equal. -/
def Call.same : Call → Call → Bool
  | ⟨function, args, order, filter, window, star, distinct, form⟩, c =>
    function == c.function && sameNodes args c.args && sameSortKeys order c.order
      && sameNode? filter c.filter && sameWindow? window c.window && star == c.star
      && distinct == c.distinct && form == c.form
termination_by structural a => a

/-- Whether two windows are equal. -/
def Window.same : Window → Window → Bool
  | ⟨name, base, part, order, frame⟩, w =>
    name == w.name && base == w.base && sameNodes part w.partition && sameSortKeys order w.order
      && sameFrame? frame w.frame
termination_by structural a => a

/-- Whether two optional windows are equal. -/
def sameWindow? : Option Window → Option Window → Bool
  | none, none => true
  | some a, some b => a.same b
  | _, _ => false
termination_by structural a => a

/-- Whether two lists of windows are equal. -/
def sameWindows : List Window → List Window → Bool
  | [], [] => true
  | a :: as, b :: bs => a.same b && sameWindows as bs
  | _, _ => false
termination_by structural a => a

/-- Whether two frames are equal. -/
def Frame.same : Frame → Frame → Bool
  | ⟨mode, start, stop, exclusion⟩, f =>
    mode == f.mode && start.same f.start && sameBound? stop f.stop && exclusion == f.exclusion
termination_by structural a => a

/-- Whether two optional frames are equal. -/
def sameFrame? : Option Frame → Option Frame → Bool
  | none, none => true
  | some a, some b => a.same b
  | _, _ => false
termination_by structural a => a

/-- Whether two ends of a frame are equal. -/
def FrameBound.same : FrameBound → FrameBound → Bool
  | .unboundedPreceding, .unboundedPreceding => true
  | .preceding a, .preceding b => a.same b
  | .currentRow, .currentRow => true
  | .following a, .following b => a.same b
  | .unboundedFollowing, .unboundedFollowing => true
  | _, _ => false
termination_by structural a => a

/-- Whether two optional ends of a frame are equal. -/
def sameBound? : Option FrameBound → Option FrameBound → Bool
  | none, none => true
  | some a, some b => a.same b
  | _, _ => false
termination_by structural a => a

/-- Whether two subqueries in an expression are equal. -/
def Subquery.same : Subquery → Subquery → Bool
  | ⟨use, test, op, query⟩, s =>
    use == s.use && sameNode? test s.test && op == s.op && query.same s.query
termination_by structural a => a

/-- Whether two arms of a `CASE` expression are equal. -/
def CaseArm.same : CaseArm → CaseArm → Bool
  | ⟨condition, result⟩, a => condition.same a.condition && result.same a.result
termination_by structural a => a

/-- Whether two lists of arms are equal. -/
def sameArms : List CaseArm → List CaseArm → Bool
  | [], [] => true
  | a :: as, b :: bs => a.same b && sameArms as bs
  | _, _ => false
termination_by structural a => a

/-- Whether two subscripts are equal. -/
def Subscript.same : Subscript → Subscript → Bool
  | ⟨slice, lower, upper⟩, s =>
    slice == s.slice && sameNode? lower s.lower && sameNode? upper s.upper
termination_by structural a => a

/-- Whether two steps are equal. -/
def Step.same : Step → Step → Bool
  | .subscript a, .subscript b => a.same b
  | .field a, .field b => a == b
  | .star, .star => true
  | _, _ => false
termination_by structural a => a

/-- Whether two lists of steps are equal. -/
def sameSteps : List Step → List Step → Bool
  | [], [] => true
  | a :: as, b :: bs => a.same b && sameSteps as bs
  | _, _ => false
termination_by structural a => a

/-- Whether two columns of a new table are equal. -/
def ColumnDef.same : ColumnDef → ColumnDef → Bool
  | ⟨name, type, constraints, collation⟩, c =>
    name == c.name && type.same c.type && sameConstraints constraints c.constraints
      && collation == c.collation
termination_by structural a => a

/-- Whether two constraints are equal. -/
def Constraint.same : Constraint → Constraint → Bool
  | ⟨kind, name, expression, keys, refTable, columns, refColumns, onDelete, onUpdate⟩, c =>
    kind == c.kind && name == c.name && sameNode? expression c.expression && keys == c.keys
      && refTable == c.refTable && columns == c.columns && refColumns == c.refColumns
      && onDelete == c.onDelete && onUpdate == c.onUpdate
termination_by structural a => a

/-- Whether two lists of constraints are equal. -/
def sameConstraints : List Constraint → List Constraint → Bool
  | [], [] => true
  | a :: as, b :: bs => a.same b && sameConstraints as bs
  | _, _ => false
termination_by structural a => a

/-- Whether two `CREATE INDEX` statements are equal. -/
def CreateIndex.same : CreateIndex → CreateIndex → Bool
  | ⟨name, table, method, elements, condition, unique, concurrently, ifNotExists⟩, s =>
    name == s.name && table == s.table && method == s.method && sameElements elements s.elements
      && sameNode? condition s.condition && unique == s.unique
      && concurrently == s.concurrently && ifNotExists == s.ifNotExists
termination_by structural a => a

/-- Whether two `CREATE VIEW` statements are equal. -/
def CreateView.same : CreateView → CreateView → Bool
  | ⟨view, columns, query, replace⟩, s =>
    view == s.view && columns == s.columns && query.same s.query && replace == s.replace
termination_by structural a => a

end

instance : BEq Node := ⟨Node.same⟩

instance : BEq Select := ⟨Select.same⟩

end SqlSyntax
