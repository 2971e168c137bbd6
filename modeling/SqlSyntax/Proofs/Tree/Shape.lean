import SqlSyntax.Proofs.Tree.Everywhere

/-!
# The shape of trees

A tree that is read has a shape that its fields alone do not tell: which operands an
operation has, which clauses a query, what may stand beside the star of a call.  The
renderer relies on it.

## Main definitions

* `Node.Shaped` — the shape of a node, with a structure for each node that has one.
* `Node.Sound` — a node and all below it have their shape.

## Main results

* `Node.sound_iff` — a sound node has its shape and sound children.
* `sound_junction`, `sound_select` and others — what makes nodes of a kind sound.
-/

namespace SqlSyntax

/-! ### Shapes -/

/-- Whether an operation tests a range. -/
def OperationKind.isRange : OperationKind → Bool
  | between | notBetween | betweenSymmetric | notBetweenSymmetric => true
  | _ => false

/-- An operation has a right operand, and a left one unless it is an operator in front of
its operand.  A range has two bounds, and a list that is searched has items. -/
structure OperationShaped (kind : OperationKind) (left right : Option Node) : Prop where
  hasRight : right.isSome = true
  hasLeft : left = none → kind = .op
  bounds : kind.isRange = true → ∃ low high, right = some (.list [low, high])
  items : kind = .inList → ∃ ns, ns ≠ [] ∧ right = some (.list ns)

/-- `NOT` has one operand.  `AND` and `OR` have two or more, and the first of them is not
of the same kind. -/
def JunctionShaped : Junction → List Node → Prop
  | .not, args => args.length = 1
  | op, args => 2 ≤ args.length ∧ ∀ inner, args.head? ≠ some (.junction op inner)

/-- Rows are compared with something, with all of them by an operator; other uses of a
subquery compare nothing. -/
structure Subquery.Shaped (s : Subquery) : Prop where
  any : s.use = .forAny → s.test.isSome = true
  all : s.use = .forAll → s.test.isSome = true ∧ s.op.isSome = true
  plain : s.use ≠ .forAny → s.use ≠ .forAll → s.test = none ∧ s.op = none

/-- A subscript that is no slice has a single bound. -/
def Subscript.Shaped (s : Subscript) : Prop :=
  s.slice = false → s.lower = none ∧ s.upper.isSome = true

/-- Without arguments but a star, nothing is ordered or distinct. -/
def Call.Shaped (c : Call) : Prop :=
  c.star = true → c.args = [] ∧ c.distinct = false ∧ c.order = []

/-- Only an update has assignments, for conflicts that it names. -/
structure OnConflict.Shaped (c : OnConflict) : Prop where
  update : c.action = .update → c.assignments ≠ [] ∧ c.target.isSome = true
  nothing : c.action = .nothing → c.assignments = [] ∧ c.condition = none

/-- The shape of a query before all clauses behind it have been read: it is combined of
two queries or has none of their clauses and no further query; rows of values are as long
as each other; and there is a limit if one is meant. -/
structure Select.Built (s : Select) : Prop where
  combined : s.op ≠ .none ↔ s.left.isSome = true ∧ s.right.isSome = true
  alone : s.op = .none → s.left = none ∧ s.right = none
  bare : s.op ≠ .none → s.distinct = none ∧ s.targets = [] ∧ s.rows = [] ∧ s.sources = [] ∧
    s.condition = none ∧ s.groups = [] ∧ s.having = none ∧ s.windows = []
  filled : ∀ r ∈ s.rows, r ≠ []
  even : ∀ r ∈ s.rows, ∀ r' ∈ s.rows, r.length = r'.length
  limited : s.limitStyle ≠ .unlimited ↔ s.limit.isSome = true

/-- The shape of a query: rows that equal the last one are only meant with an order. -/
structure Select.Shaped (s : Select) : Prop extends s.Built where
  ties : s.limitStyle = .withTies → s.order ≠ []

/-- The shape of a node. -/
def Node.Shaped : Node → Prop
  | .select s => s.Shaped
  | .operation kind _ left right => OperationShaped kind left right
  | .junction op args => JunctionShaped op args
  | .subquery s => s.Shaped
  | .column fields => .star ∉ fields.dropLast
  | .row fields explicit => explicit = false → 2 ≤ fields.length
  | .caseExpr _ arms _ => arms ≠ []
  | .subscript s => s.Shaped
  | .call c => c.Shaped
  | .onConflict c => c.Shaped
  | _ => True

/-- A node and all below it have their shape. -/
def Node.Sound (n : Node) : Prop :=
  n.All Node.Shaped

namespace Node

theorem sound_iff {n : Node} : n.Sound ↔ n.Shaped ∧ ∀ c ∈ n.children, c.Sound :=
  all_iff

/-! ### Leaves -/

theorem sound_of_leaf {n : Node} (hshape : n.Shaped) (hleaf : n.children = []) : n.Sound :=
  sound_iff.mpr ⟨hshape, by rw [hleaf]; exact nofun⟩

@[simp] theorem sound_const (v : Literal) : (const v).Sound :=
  sound_iff.mpr ⟨trivial, List.forall_mem_singleton.mpr (sound_of_leaf trivial rfl)⟩

@[simp] theorem sound_param (n : Int) : (param n).Sound := sound_of_leaf trivial rfl

@[simp] theorem sound_default : default.Sound := sound_of_leaf trivial rfl

@[simp] theorem sound_valueFunction (f : ValueFunction) (p : Option Int) :
    (valueFunction f p).Sound := sound_of_leaf trivial rfl

@[simp] theorem sound_drop (s : Drop) : (drop s).Sound := sound_of_leaf trivial rfl

@[simp] theorem sound_transaction (s : Transaction) : (transaction s).Sound :=
  sound_of_leaf trivial rfl

@[simp] theorem sound_showSetting (s : String) : (showSetting s).Sound := sound_of_leaf trivial rfl

theorem forall_labelNodes (a : Option Alias) : ∀ n ∈ labelNodes a, n.Sound := by
  intro n hn
  obtain ⟨b, -, rfl⟩ := List.mem_map.mp hn
  exact sound_of_leaf trivial rfl

@[simp] theorem sound_table (t : TableRef) : (table t).Sound :=
  sound_iff.mpr ⟨trivial, forall_labelNodes t.label⟩

@[simp] theorem sound_locking (l : Locking) : (locking l).Sound :=
  sound_iff.mpr ⟨trivial, List.forall_mem_map.mpr fun t _ => sound_table t⟩

@[simp] theorem sound_truncate (s : Truncate) : (truncate s).Sound :=
  sound_iff.mpr ⟨trivial, List.forall_mem_map.mpr fun t _ => sound_table t⟩

/-! ### Expressions -/

@[simp] theorem sound_column {fields : List ColumnField} :
    (column fields).Sound ↔ .star ∉ fields.dropLast := by
  rw [sound_iff]
  exact and_iff_left nofun

@[simp] theorem sound_list {items : List Node} : (list items).Sound ↔ ∀ n ∈ items, n.Sound := by
  rw [sound_iff]
  exact and_iff_right trivial

theorem sound_operation {kind : OperationKind} {name : String} {left right : Option Node} :
    (operation kind name left right).Sound
      ↔ OperationShaped kind left right ∧ (∀ n ∈ left, n.Sound) ∧ ∀ n ∈ right, n.Sound := by
  rw [sound_iff]
  show OperationShaped kind left right ∧ (∀ c ∈ left.toList ++ right.toList, c.Sound) ↔ _
  simp [or_imp, forall_and]

theorem sound_junction {op : Junction} {args : List Node} :
    (junction op args).Sound ↔ JunctionShaped op args ∧ ∀ n ∈ args, n.Sound := by
  rw [sound_iff]
  exact Iff.rfl

@[simp] theorem sound_nullTest {arg : Node} {negated : Bool} :
    (nullTest arg negated).Sound ↔ arg.Sound := by
  rw [sound_iff]
  show True ∧ (∀ c ∈ [arg], c.Sound) ↔ _
  simp

@[simp] theorem sound_truthTest {arg : Node} {truth : Truth} {negated : Bool} :
    (truthTest arg truth negated).Sound ↔ arg.Sound := by
  rw [sound_iff]
  show True ∧ (∀ c ∈ [arg], c.Sound) ↔ _
  simp

theorem sound_subquery {s : Subquery} :
    (subquery s).Sound ↔ s.Shaped ∧ (∀ n ∈ s.test, n.Sound) ∧ (select s.query).Sound := by
  rw [sound_iff]
  show s.Shaped ∧ (∀ c ∈ s.test.toList ++ [select s.query], c.Sound) ↔ _
  simp [or_imp, forall_and]

theorem sound_call {c : Call} :
    (call c).Sound ↔ c.Shaped ∧ (∀ n ∈ c.args, n.Sound) ∧ (∀ k ∈ c.order, (sortKey k).Sound) ∧
      (∀ n ∈ c.filter, n.Sound) ∧ ∀ w ∈ c.window, (window w).Sound := by
  rw [sound_iff]
  show c.Shaped ∧ (∀ n ∈ c.args ++ c.order.map sortKey ++ c.filter.toList ++ c.window.toList.map window,
      n.Sound) ↔ _
  simp [or_imp, forall_and]

@[simp] theorem sound_namedArg {name : String} {arg : Node} :
    (namedArg name arg).Sound ↔ arg.Sound := by
  rw [sound_iff]
  show True ∧ (∀ c ∈ [arg], c.Sound) ↔ _
  simp

@[simp] theorem sound_sortKey {k : SortKey} : (sortKey k).Sound ↔ k.key.Sound := by
  rw [sound_iff]
  show True ∧ (∀ c ∈ [k.key], c.Sound) ↔ _
  simp

theorem sound_window {w : Window} :
    (window w).Sound ↔ (∀ n ∈ w.partition, n.Sound) ∧ (∀ k ∈ w.order, (sortKey k).Sound) ∧
      ∀ f ∈ w.frame, ∀ n ∈ f.distances, n.Sound := by
  rw [sound_iff]
  show True ∧ (∀ n ∈ w.partition ++ w.order.map sortKey ++ w.frame.elim [] Frame.distances, n.Sound) ↔ _
  cases w.frame <;> simp [or_imp, forall_and]

@[simp] theorem sound_typeName {t : TypeName} :
    (typeName t).Sound ↔ ∀ n ∈ t.modifiers, n.Sound := by
  rw [sound_iff]
  exact and_iff_right trivial

@[simp] theorem sound_cast {arg : Node} {t : TypeName} :
    (cast arg t).Sound ↔ arg.Sound ∧ ∀ n ∈ t.modifiers, n.Sound := by
  rw [sound_iff]
  show True ∧ (∀ c ∈ [arg, typeName t], c.Sound) ↔ _
  simp

@[simp] theorem sound_collate {arg : Node} {collation : List String} :
    (collate arg collation).Sound ↔ arg.Sound := by
  rw [sound_iff]
  show True ∧ (∀ c ∈ [arg], c.Sound) ↔ _
  simp

@[simp] theorem sound_caseArm {a : CaseArm} :
    (caseArm a).Sound ↔ a.condition.Sound ∧ a.result.Sound := by
  rw [sound_iff]
  show True ∧ (∀ c ∈ [a.condition, a.result], c.Sound) ↔ _
  simp

theorem sound_caseExpr {operand otherwise : Option Node} {arms : List CaseArm} :
    (caseExpr operand arms otherwise).Sound
      ↔ arms ≠ [] ∧ (∀ n ∈ operand, n.Sound) ∧ (∀ a ∈ arms, (caseArm a).Sound) ∧
        ∀ n ∈ otherwise, n.Sound := by
  rw [sound_iff]
  show arms ≠ [] ∧ (∀ c ∈ operand.toList ++ arms.map caseArm ++ otherwise.toList, c.Sound) ↔ _
  simp [or_imp, forall_and, and_assoc]

@[simp] theorem sound_array {es : List Node} : (array es).Sound ↔ ∀ n ∈ es, n.Sound := by
  rw [sound_iff]
  exact and_iff_right trivial

theorem sound_subscript {s : Subscript} :
    (subscript s).Sound ↔ s.Shaped ∧ (∀ n ∈ s.lower, n.Sound) ∧ ∀ n ∈ s.upper, n.Sound := by
  rw [sound_iff]
  show s.Shaped ∧ (∀ c ∈ s.lower.toList ++ s.upper.toList, c.Sound) ↔ _
  simp [or_imp, forall_and]

theorem sound_indirection {arg : Node} {steps : List Step} :
    (indirection arg steps).Sound ↔ arg.Sound ∧ ∀ s ∈ steps, ∀ n ∈ s.children, n.Sound := by
  rw [sound_iff]
  show True ∧ (∀ c ∈ arg :: steps.flatMap Step.children, c.Sound) ↔ _
  simp only [List.forall_mem_cons, List.mem_flatMap, true_and]
  exact and_congr_right fun _ =>
    ⟨fun h s hs n hn => h n ⟨s, hs, hn⟩, fun h n ⟨s, hs, hn⟩ => h s hs n hn⟩

theorem sound_row {fields : List Node} {explicit : Bool} :
    (row fields explicit).Sound
      ↔ (explicit = false → 2 ≤ fields.length) ∧ ∀ n ∈ fields, n.Sound := by
  exact sound_iff

@[simp] theorem sound_coalesce {args : List Node} : (coalesce args).Sound ↔ ∀ n ∈ args, n.Sound := by
  rw [sound_iff]
  exact and_iff_right trivial

@[simp] theorem sound_extremum {op : Extremum} {args : List Node} :
    (extremum op args).Sound ↔ ∀ n ∈ args, n.Sound := by
  rw [sound_iff]
  exact and_iff_right trivial

/-! ### Clauses -/

@[simp] theorem sound_target {t : Target} : (target t).Sound ↔ ∀ n ∈ t.value, n.Sound := by
  rw [sound_iff]
  show True ∧ (∀ c ∈ t.value.toList, c.Sound) ↔ _
  simp

@[simp] theorem sound_derivedTable {t : DerivedTable} :
    (derivedTable t).Sound ↔ (select t.query).Sound := by
  rw [sound_iff]
  show True ∧ (∀ c ∈ select t.query :: labelNodes t.label, c.Sound) ↔ _
  simpa using fun _ => forall_labelNodes t.label

@[simp] theorem sound_tableFunction {t : TableFunction} :
    (tableFunction t).Sound ↔ (call t.call).Sound := by
  rw [sound_iff]
  show True ∧ (∀ c ∈ call t.call :: labelNodes t.label, c.Sound) ↔ _
  simpa using fun _ => forall_labelNodes t.label

theorem sound_join {j : Join} :
    (join j).Sound ↔ j.left.Sound ∧ j.right.Sound ∧ ∀ n ∈ j.condition, n.Sound := by
  rw [sound_iff]
  show True ∧ (∀ c ∈ [j.left, j.right] ++ j.condition.toList ++ labelNodes j.label, c.Sound) ↔ _
  simpa [or_imp, forall_and] using fun _ _ _ => forall_labelNodes j.label

@[simp] theorem sound_cte {c : Cte} : (cte c).Sound ↔ c.query.Sound := by
  rw [sound_iff]
  show True ∧ (∀ n ∈ [c.query], n.Sound) ↔ _
  simp

@[simp] theorem sound_ctes {w : With} : (ctes w).Sound ↔ ∀ c ∈ w.ctes, c.query.Sound := by
  rw [sound_iff]
  show True ∧ (∀ c ∈ w.ctes.map cte, c.Sound) ↔ _
  simp

@[simp] theorem sound_indexElement {e : IndexElement} :
    (indexElement e).Sound ↔ ∀ n ∈ e.expression, n.Sound := by
  rw [sound_iff]
  show True ∧ (∀ c ∈ e.expression.toList, c.Sound) ↔ _
  simp

@[simp] theorem sound_conflictTarget {t : ConflictTarget} :
    (conflictTarget t).Sound
      ↔ (∀ e ∈ t.elements, (indexElement e).Sound) ∧ ∀ n ∈ t.condition, n.Sound := by
  rw [sound_iff]
  show True ∧ (∀ c ∈ t.elements.map indexElement ++ t.condition.toList, c.Sound) ↔ _
  simp [or_imp, forall_and]

theorem sound_onConflict {c : OnConflict} :
    (onConflict c).Sound ↔ c.Shaped ∧ (∀ t ∈ c.target, (conflictTarget t).Sound) ∧
      (∀ t ∈ c.assignments, (target t).Sound) ∧ ∀ n ∈ c.condition, n.Sound := by
  rw [sound_iff]
  show c.Shaped ∧ (∀ n ∈ c.target.toList.map conflictTarget ++ c.assignments.map target
      ++ c.condition.toList, n.Sound) ↔ _
  simp [or_imp, forall_and]

/-! ### Definitions -/

@[simp] theorem sound_constraint {c : Constraint} :
    (constraint c).Sound ↔ ∀ n ∈ c.expression, n.Sound := by
  rw [sound_iff]
  show True ∧ (∀ n ∈ c.expression.toList ++ c.refTable.toList.map table, n.Sound) ↔ _
  simp [or_imp, forall_and]

theorem sound_columnDef {c : ColumnDef} :
    (columnDef c).Sound
      ↔ (∀ n ∈ c.type.modifiers, n.Sound) ∧ ∀ k ∈ c.constraints, (constraint k).Sound := by
  rw [sound_iff]
  show True ∧ (∀ n ∈ typeName c.type :: c.constraints.map constraint, n.Sound) ↔ _
  simp

@[simp] theorem sound_createTable {t : TableRef} {es : List Node} {lenient : Bool} :
    (createTable t es lenient).Sound ↔ ∀ n ∈ es, n.Sound := by
  rw [sound_iff]
  show True ∧ (∀ n ∈ table t :: es, n.Sound) ↔ _
  simp

@[simp] theorem sound_createView {s : CreateView} :
    (createView s).Sound ↔ (select s.query).Sound := by
  rw [sound_iff]
  show True ∧ (∀ n ∈ [table s.view, select s.query], n.Sound) ↔ _
  simp

theorem sound_createIndex {s : CreateIndex} :
    (createIndex s).Sound
      ↔ (∀ e ∈ s.elements, (indexElement e).Sound) ∧ ∀ n ∈ s.condition, n.Sound := by
  rw [sound_iff]
  show True ∧ (∀ n ∈ [table s.table] ++ s.elements.map indexElement ++ s.condition.toList, n.Sound) ↔ _
  simp [or_imp, forall_and]

@[simp] theorem sound_setting {action : SettingAction} {name : Option String}
    {values : List Node} {isLocal : Bool} :
    (setting action name values isLocal).Sound ↔ ∀ n ∈ values, n.Sound := by
  rw [sound_iff]
  exact and_iff_right trivial

end Node

/-! ### Queries and changes -/

/-- All that is below a query is sound. -/
structure Select.SoundBelow (s : Select) : Prop where
  ctes : ∀ w ∈ s.ctes, (Node.ctes w).Sound
  distinct : ∀ n ∈ s.distinct.getD [], n.Sound
  targets : ∀ t ∈ s.targets, (Node.target t).Sound
  sources : ∀ n ∈ s.sources, n.Sound
  condition : ∀ n ∈ s.condition, n.Sound
  groups : ∀ n ∈ s.groups, n.Sound
  having : ∀ n ∈ s.having, n.Sound
  windows : ∀ w ∈ s.windows, (Node.window w).Sound
  rows : ∀ r ∈ s.rows, ∀ n ∈ r, n.Sound
  left : ∀ q ∈ s.left, (Node.select q).Sound
  right : ∀ q ∈ s.right, (Node.select q).Sound
  order : ∀ k ∈ s.order, (Node.sortKey k).Sound
  offset : ∀ n ∈ s.offset, n.Sound
  limit : ∀ n ∈ s.limit, n.Sound

/-- What an insertion, an update or a deletion has below it is sound. -/
structure Insert.SoundBelow (s : Insert) : Prop where
  ctes : ∀ w ∈ s.ctes, (Node.ctes w).Sound
  columns : ∀ t ∈ s.columns, (Node.target t).Sound
  source : ∀ q ∈ s.source, (Node.select q).Sound
  conflict : ∀ c ∈ s.conflict, (Node.onConflict c).Sound
  returning : ∀ t ∈ s.returning, (Node.target t).Sound

@[inherit_doc Insert.SoundBelow]
structure Update.SoundBelow (s : Update) : Prop where
  ctes : ∀ w ∈ s.ctes, (Node.ctes w).Sound
  assignments : ∀ t ∈ s.assignments, (Node.target t).Sound
  sources : ∀ n ∈ s.sources, n.Sound
  condition : ∀ n ∈ s.condition, n.Sound
  returning : ∀ t ∈ s.returning, (Node.target t).Sound

@[inherit_doc Insert.SoundBelow]
structure Delete.SoundBelow (s : Delete) : Prop where
  ctes : ∀ w ∈ s.ctes, (Node.ctes w).Sound
  sources : ∀ n ∈ s.sources, n.Sound
  condition : ∀ n ∈ s.condition, n.Sound
  returning : ∀ t ∈ s.returning, (Node.target t).Sound

namespace Node

theorem sound_select {s : Select} : (select s).Sound ↔ s.Shaped ∧ s.SoundBelow := by
  rw [sound_iff]
  refine and_congr_right fun _ => ?_
  show (∀ c ∈ s.children, c.Sound) ↔ _
  simp only [Select.children, List.forall_mem_append, List.forall_mem_map, Option.mem_toList]
  constructor
  · rintro ⟨⟨⟨⟨⟨⟨⟨⟨⟨⟨⟨⟨⟨⟨ctes, distinct⟩, targets⟩, sources⟩, condition⟩, groups⟩, having⟩, windows⟩,
      rows⟩, left⟩, right⟩, order⟩, offset⟩, limit⟩, -⟩
    exact ⟨ctes, distinct, targets, sources, condition, groups, having, windows,
      fun r hr n hn => rows n (List.mem_flatten_of_mem hr hn), left, right, order, offset, limit⟩
  · rintro ⟨ctes, distinct, targets, sources, condition, groups, having, windows, rows, left, right,
      order, offset, limit⟩
    refine ⟨⟨⟨⟨⟨⟨⟨⟨⟨⟨⟨⟨⟨⟨ctes, distinct⟩, targets⟩, sources⟩, condition⟩, groups⟩, having⟩, windows⟩,
      fun n hn => ?_⟩, left⟩, right⟩, order⟩, offset⟩, limit⟩, fun l _ => sound_locking l⟩
    obtain ⟨r, hr, hn⟩ := List.mem_flatten.mp hn
    exact rows r hr n hn

theorem sound_insert {s : Insert} : (insert s).Sound ↔ s.SoundBelow := by
  rw [sound_iff]
  show True ∧ (∀ c ∈ s.children, c.Sound) ↔ _
  simp only [true_and, Insert.children, List.forall_mem_append, List.forall_mem_map,
    Option.mem_toList, List.forall_mem_singleton]
  constructor
  · rintro ⟨⟨⟨⟨⟨ctes, -⟩, columns⟩, source⟩, conflict⟩, returning⟩
    exact ⟨ctes, columns, source, conflict, returning⟩
  · rintro ⟨ctes, columns, source, conflict, returning⟩
    exact ⟨⟨⟨⟨⟨ctes, sound_table _⟩, columns⟩, source⟩, conflict⟩, returning⟩

theorem sound_update {s : Update} : (update s).Sound ↔ s.SoundBelow := by
  rw [sound_iff]
  show True ∧ (∀ c ∈ s.children, c.Sound) ↔ _
  simp only [true_and, Update.children, List.forall_mem_append, List.forall_mem_map,
    Option.mem_toList, List.forall_mem_singleton]
  constructor
  · rintro ⟨⟨⟨⟨⟨ctes, -⟩, assignments⟩, sources⟩, condition⟩, returning⟩
    exact ⟨ctes, assignments, sources, condition, returning⟩
  · rintro ⟨ctes, assignments, sources, condition, returning⟩
    exact ⟨⟨⟨⟨⟨ctes, sound_table _⟩, assignments⟩, sources⟩, condition⟩, returning⟩

theorem sound_delete {s : Delete} : (delete s).Sound ↔ s.SoundBelow := by
  rw [sound_iff]
  show True ∧ (∀ c ∈ s.children, c.Sound) ↔ _
  simp only [true_and, Delete.children, List.forall_mem_append, List.forall_mem_map,
    Option.mem_toList, List.forall_mem_singleton]
  constructor
  · rintro ⟨⟨⟨⟨ctes, -⟩, sources⟩, condition⟩, returning⟩
    exact ⟨ctes, sources, condition, returning⟩
  · rintro ⟨ctes, sources, condition, returning⟩
    exact ⟨⟨⟨⟨ctes, sound_table _⟩, sources⟩, condition⟩, returning⟩

end Node
end SqlSyntax
