import Mathlib.Algebra.BigOperators.Group.List.Basic
import Mathlib.Algebra.Order.Group.Multiset
import SqlSyntax.Tree.Building
import SqlSyntax.Tree.Walk

/-!
# The parameters of a tree

A traversal meets the parameters of a tree, each as often as it stands there.  Their
numbers are counted as a multiset: what stands in a node is what stands in its
children, and only a parameter adds a number of its own.

## Main definitions

* `total` — what a list of things holds together.
* `Node.params` — the numbers of the parameters that a traversal meets.

## Main results

* `Node.params_eq` — the parameters of a node are its own and those of its children.
* `Node.params_inner` — a node that is no parameter holds those of its children.
* `Node.params_joined` — a chain of operands keeps the parameters of all of them.
-/

namespace SqlSyntax

variable {α β : Type}

/-! ### Totals -/

/-- What the items of a list hold together. -/
def total (w : α → Multiset Int) (as : List α) : Multiset Int :=
  (as.map w).sum

section Total

variable (w : α → Multiset Int) (a : α) (as bs : List α)

@[simp] theorem total_nil : total w [] = 0 := rfl

@[simp] theorem total_cons : total w (a :: as) = w a + total w as := List.sum_cons

@[simp] theorem total_append : total w (as ++ bs) = total w as + total w bs := by
  simp [total]

@[simp] theorem total_map (f : β → α) (bs : List β) :
    total w (bs.map f) = total (fun b => w (f b)) bs := by
  simp [total, Function.comp_def]

@[simp] theorem total_flatten (ass : List (List α)) :
    total w ass.flatten = total (total w) ass := by
  induction ass with
  | nil => rfl
  | cons as ass ih => rw [List.flatten_cons, total_append, total_cons, ih]

@[simp] theorem total_flatMap (f : β → List α) (bs : List β) :
    total w (bs.flatMap f) = total (fun b => total w (f b)) bs := by
  rw [List.flatMap_def, total_flatten, total_map]

/-- The order of the items has no part in the total. -/
@[simp] theorem total_reverse : total w as.reverse = total w as := by
  rw [total, List.map_reverse, List.sum_reverse, total]

@[simp] theorem total_none : total (fun _ : α => 0) as = 0 := by
  simp [total]

end Total

/-! ### Parameters -/

namespace Node

/-- The number of a parameter. -/
def param? : Node → Option Int
  | param m => some m
  | _ => none

/-- The numbers of the parameters that a traversal meets. -/
def params (n : Node) : Multiset Int :=
  (n.walk.filterMap param? : List Int)

theorem sum_params (ns : List Node) :
    ((ns.flatMap walk).filterMap param? : Multiset Int) = total params ns := by
  induction ns with
  | nil => rfl
  | cons n ns ih =>
    rw [List.flatMap_cons, List.filterMap_append, ← Multiset.coe_add, ih, total_cons]
    rfl

/-- The parameters of a node are its own number, if it is one, and those of its
children. -/
theorem params_eq (n : Node) :
    n.params = (n.param?.toList : Multiset Int) + total params n.children := by
  rw [params, walk_eq, ← sum_params, Multiset.coe_add]
  cases h : n.param? with
  | none => rw [List.filterMap_cons_none h]; rfl
  | some m => rw [List.filterMap_cons_some h]; rfl

/-- A node that is no parameter holds the parameters of its children. -/
theorem params_inner {n : Node} (h : n.param? = none) : n.params = total params n.children := by
  rw [params_eq, h]
  exact zero_add _

@[simp] theorem params_param (m : Int) : (param m).params = {m} := by
  rw [params_eq]
  rfl

end Node

/-! ### Parts of expressions -/

/-- The parameters of a type are in its modifiers. -/
def TypeName.params (t : TypeName) : Multiset Int :=
  total Node.params t.modifiers

/-- The parameters of an item of `ORDER BY`. -/
def SortKey.params (k : SortKey) : Multiset Int :=
  k.key.params

/-- The parameters of an end of a window frame. -/
def FrameBound.params (b : FrameBound) : Multiset Int :=
  total Node.params b.distances

/-- The parameters of a window frame. -/
def Frame.params (f : Frame) : Multiset Int :=
  f.start.params + total FrameBound.params f.stop.toList

/-- The parameters of a window. -/
def Window.params (w : Window) : Multiset Int :=
  total Node.params w.partition + total SortKey.params w.order
    + total Frame.params w.frame.toList

/-- The parameters of a call, with those behind its parentheses. -/
def Call.params (c : Call) : Multiset Int :=
  total Node.params c.args + total SortKey.params c.order + total Node.params c.filter.toList
    + total Window.params c.window.toList

/-- The parameters of an arm of a `CASE` expression. -/
def CaseArm.params (a : CaseArm) : Multiset Int :=
  a.condition.params + a.result.params

/-- The parameters of a subscript. -/
def Subscript.params (s : Subscript) : Multiset Int :=
  total Node.params s.lower.toList + total Node.params s.upper.toList

/-- The parameters of a step into a value. -/
def Step.params (s : Step) : Multiset Int :=
  total Node.params s.children

/-- The parameters of an output column or assignment. -/
def Target.params (t : Target) : Multiset Int :=
  total Node.params t.value.toList

/-! ### Parts of statements -/

/-- The parameters of a query. -/
def Select.params (s : Select) : Multiset Int :=
  total Node.params s.children

/-- The parameters of a common table expression. -/
def Cte.params (c : Cte) : Multiset Int :=
  c.query.params

/-- The parameters of the common table expressions in front of a statement. -/
def With.params (w : With) : Multiset Int :=
  total Cte.params w.ctes

/-- The parameters of a column or expression of an index. -/
def IndexElement.params (e : IndexElement) : Multiset Int :=
  total Node.params e.expression.toList

/-- The parameters of a conflict target. -/
def ConflictTarget.params (t : ConflictTarget) : Multiset Int :=
  total IndexElement.params t.elements + total Node.params t.condition.toList

/-- The parameters of an `ON CONFLICT` clause. -/
def OnConflict.params (c : OnConflict) : Multiset Int :=
  total ConflictTarget.params c.target.toList + total Target.params c.assignments
    + total Node.params c.condition.toList

/-- The parameters of a constraint. -/
def Constraint.params (c : Constraint) : Multiset Int :=
  total Node.params c.expression.toList

/-- The parameters of a column of a new table. -/
def ColumnDef.params (c : ColumnDef) : Multiset Int :=
  c.type.params + total Constraint.params c.constraints

namespace Node

/-! ### Expressions -/

section Expressions

variable (arg : Node) (args : List Node) (left right : Option Node)

@[simp] theorem params_column (fields : List ColumnField) : (column fields).params = 0 :=
  params_inner rfl

@[simp] theorem params_const (v : Literal) : (const v).params = 0 := by
  rw [params_inner rfl, children, total_cons, total_nil, params_inner rfl]
  rfl

@[simp] theorem params_valueFunction (f : ValueFunction) (precision : Option Int) :
    (valueFunction f precision).params = 0 :=
  params_inner rfl

@[simp] theorem params_default : default.params = 0 :=
  params_inner rfl

@[simp] theorem params_operation (kind : OperationKind) (op : String) :
    (operation kind op left right).params
      = total params left.toList + total params right.toList := by
  rw [params_inner rfl, children, total_append]

@[simp] theorem params_junction (op : Junction) : (junction op args).params = total params args :=
  params_inner rfl

@[simp] theorem params_nullTest (negated : Bool) : (nullTest arg negated).params = arg.params :=
  (params_inner rfl).trans (add_zero _)

@[simp] theorem params_truthTest (truth : Truth) (negated : Bool) :
    (truthTest arg truth negated).params = arg.params :=
  (params_inner rfl).trans (add_zero _)

@[simp] theorem params_subquery (s : Subquery) :
    (subquery s).params = total params s.test.toList + s.query.params := by
  rw [params_inner rfl, children, total_append, total_cons, total_nil, add_zero, params_inner rfl]
  rfl

@[simp] theorem params_sortKey (k : SortKey) : (sortKey k).params = k.params :=
  (params_inner rfl).trans (add_zero _)

/-- The distances of a frame are in its ends. -/
theorem total_distances (f : Frame) : total params f.distances = f.params := by
  rw [Frame.distances, total_append, Frame.params, FrameBound.params]
  cases f.stop <;> simp [FrameBound.params]

@[simp] theorem params_window (w : Window) : (window w).params = w.params := by
  rw [params_inner rfl, children, Window.children, Window.params]
  cases w.frame <;> simp [total_distances, add_assoc]

@[simp] theorem params_call (c : Call) : (call c).params = c.params := by
  rw [params_inner rfl, children, Call.children, Call.params]
  simp [add_assoc]

@[simp] theorem params_namedArg (name : String) : (namedArg name arg).params = arg.params :=
  (params_inner rfl).trans (add_zero _)

@[simp] theorem params_typeName (t : TypeName) : (typeName t).params = t.params :=
  params_inner rfl

@[simp] theorem params_cast (t : TypeName) :
    (cast arg t).params = arg.params + t.params := by
  rw [params_inner rfl, children, total_cons, total_cons, total_nil, add_zero, params_typeName]

@[simp] theorem params_collate (collation : List String) :
    (collate arg collation).params = arg.params :=
  (params_inner rfl).trans (add_zero _)

@[simp] theorem params_caseExpr (operand otherwise : Option Node) (arms : List CaseArm) :
    (caseExpr operand arms otherwise).params
      = total params operand.toList + total CaseArm.params arms + total params otherwise.toList := by
  have harm (a : CaseArm) : (caseArm a).params = a.params := by
    rw [params_inner rfl, children, total_cons, total_cons, total_nil, add_zero, CaseArm.params]
  rw [params_inner rfl, children]
  simp [harm, add_assoc]

@[simp] theorem params_array : (array args).params = total params args :=
  params_inner rfl

@[simp] theorem params_row (written : Bool) : (row args written).params = total params args :=
  params_inner rfl

@[simp] theorem params_coalesce : (coalesce args).params = total params args :=
  params_inner rfl

@[simp] theorem params_extremum (op : Extremum) : (extremum op args).params = total params args :=
  params_inner rfl

@[simp] theorem params_list : (list args).params = total params args :=
  params_inner rfl

@[simp] theorem params_subscript (s : Subscript) : (subscript s).params = s.params := by
  rw [params_inner rfl, children, total_append, Subscript.params]

@[simp] theorem params_indirection (steps : List Step) :
    (indirection arg steps).params = arg.params + total Step.params steps := by
  rw [params_inner rfl, children, total_cons, total_flatMap]
  rfl

@[simp] theorem params_integer (n : Int) : (integer n).params = 0 :=
  params_const _

@[simp] theorem params_string (s : String) : (string s).params = 0 :=
  params_const _

@[simp] theorem params_negation : (negation arg).params = arg.params := by
  simp [negation]

@[simp] theorem params_binary (op : String) (l r : Node) :
    (binary op l r).params = l.params + r.params := by
  simp [binary]

@[simp] theorem params_prefixed (op : String) : (prefixed op arg).params = arg.params := by
  simp [prefixed]

/-- A chain of operands keeps the parameters of all of them. -/
@[simp] theorem params_joined (op : Junction) (l r : Node) :
    (joined op l r).params = l.params + r.params := by
  unfold joined
  split
  · split
    · simp
    · simp
  · simp

end Expressions

/-! ### Queries -/

@[simp] theorem params_select (s : Select) : (select s).params = s.params :=
  params_inner rfl

/-! ### Items of `FROM` -/

section Sources

@[simp] theorem params_table (t : TableRef) : (table t).params = 0 := by
  rw [params_inner rfl, children, labelNodes, total_map]
  -- a name for a table holds nothing
  have hlabel (a : Alias) : (tableAlias a).params = 0 := params_inner rfl
  simp [hlabel]

@[simp] theorem total_labelNodes (a : Option Alias) : total params (labelNodes a) = 0 := by
  -- they are the only children of a table of that name
  have htable := params_table { name := "", label := a }
  rwa [params_inner rfl] at htable

@[simp] theorem params_derivedTable (t : DerivedTable) :
    (derivedTable t).params = t.query.params := by
  rw [params_inner rfl, children, total_cons, total_labelNodes, add_zero, params_select]

@[simp] theorem params_tableFunction (t : TableFunction) :
    (tableFunction t).params = t.call.params := by
  rw [params_inner rfl, children, total_cons, total_labelNodes, add_zero, params_call]

@[simp] theorem params_join (j : Join) : (join j).params
    = j.left.params + j.right.params + total params j.condition.toList := by
  rw [params_inner rfl, children]
  simp [add_assoc]

end Sources

/-! ### Statements and their clauses -/

section Statements

@[simp] theorem params_target (t : Target) : (target t).params = t.params :=
  params_inner rfl

@[simp] theorem params_cte (c : Cte) : (cte c).params = c.params :=
  (params_inner rfl).trans (add_zero _)

@[simp] theorem params_ctes (w : With) : (ctes w).params = w.params := by
  rw [params_inner rfl, children, With.params]
  simp

@[simp] theorem params_locking (l : Locking) : (locking l).params = 0 := by
  rw [params_inner rfl, children]
  simp

@[simp] theorem params_indexElement (e : IndexElement) : (indexElement e).params = e.params :=
  params_inner rfl

@[simp] theorem params_conflictTarget (t : ConflictTarget) :
    (conflictTarget t).params = t.params := by
  rw [params_inner rfl, children, ConflictTarget.children, ConflictTarget.params]
  simp

@[simp] theorem params_onConflict (c : OnConflict) : (onConflict c).params = c.params := by
  rw [params_inner rfl, children, OnConflict.children, OnConflict.params]
  simp [add_assoc]

@[simp] theorem params_insert (s : Insert) : (insert s).params = total params s.children :=
  params_inner rfl

@[simp] theorem params_update (s : Update) : (update s).params = total params s.children :=
  params_inner rfl

@[simp] theorem params_delete (s : Delete) : (delete s).params = total params s.children :=
  params_inner rfl

@[simp] theorem params_constraint (c : Constraint) : (constraint c).params = c.params := by
  rw [params_inner rfl, children, Constraint.children, Constraint.params]
  simp

@[simp] theorem params_columnDef (c : ColumnDef) : (columnDef c).params = c.params := by
  rw [params_inner rfl, children, ColumnDef.params]
  simp

@[simp] theorem params_createTable (t : TableRef) (elements : List Node) (lenient : Bool) :
    (createTable t elements lenient).params = total params elements := by
  rw [params_inner rfl, children, total_cons, params_table, zero_add]

@[simp] theorem params_createIndex (s : CreateIndex) : (createIndex s).params
    = total IndexElement.params s.elements + total params s.condition.toList := by
  rw [params_inner rfl, children, CreateIndex.children]
  simp

@[simp] theorem params_createView (s : CreateView) :
    (createView s).params = s.query.params := by
  rw [params_inner rfl, children]
  simp

@[simp] theorem params_drop (s : Drop) : (drop s).params = 0 :=
  params_inner rfl

@[simp] theorem params_truncate (s : Truncate) : (truncate s).params = 0 := by
  rw [params_inner rfl, children]
  simp

@[simp] theorem params_transaction (s : Transaction) : (transaction s).params = 0 :=
  params_inner rfl

@[simp] theorem params_setting (action : SettingAction) (name : Option String)
    (values : List Node) (isLocal : Bool) :
    (setting action name values isLocal).params = total params values :=
  params_inner rfl

@[simp] theorem params_showSetting (name : String) : (showSetting name).params = 0 :=
  params_inner rfl

end Statements

end Node

end SqlSyntax
