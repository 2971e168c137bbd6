import SqlSyntax.Tree.Children

/-!
# The weight of a node

A measure that decreases from a node to its children, so that a recursion over
`Node.children` ends.  It is the size of a node, but for a literal that stands
as a node of its own: a constant is no larger than the literal in it.

## Main definitions

* `Node.weight` — the measure.

## Main results

* `Node.weight_lt_of_mem_children` — a child weighs less than its parent.
-/

namespace SqlSyntax

namespace Node

/-- A measure of nodes that decreases from a node to its children.  A literal
as a node of its own weighs nothing, since a constant is no larger than the
literal in it. -/
noncomputable def weight : Node → Nat
  | literal _ => 0
  | n => sizeOf n

theorem weight_le_sizeOf (n : Node) : n.weight ≤ sizeOf n := by
  cases n <;> simp [weight]

end Node

/-! ### Sizes of the parts of a clause -/

theorem sizeOf_some {α : Type} [SizeOf α] (a : α) : sizeOf (some a) = 1 + sizeOf a := rfl

section Size

variable {α : Type} [SizeOf α] {f : α → Node} {c : Node}

theorem sizeOf_lt_of_mem_toList {o : Option Node} (h : c ∈ o.toList) : sizeOf c < sizeOf o := by
  cases o <;> simp_all

theorem sizeOf_lt_of_mem_getD {o : Option (List Node)} (h : c ∈ o.getD []) :
    sizeOf c < sizeOf o := by
  cases o with
  | none => simp at h
  | some cs =>
    have : sizeOf c < sizeOf cs := List.sizeOf_lt_of_mem h
    simp only [sizeOf_some]
    omega

theorem sizeOf_nodes_pos (ns : List Node) : 0 < sizeOf ns := by
  cases ns <;> simp <;> omega

theorem sizeOf_lt_of_mem_flatten {rows : List (List Node)} (h : c ∈ rows.flatten) :
    sizeOf c < sizeOf rows := by
  obtain ⟨row, hr, hc⟩ := List.mem_flatten.1 h
  exact Nat.lt_trans (List.sizeOf_lt_of_mem hc) (List.sizeOf_lt_of_mem hr)

theorem sizeOf_le_of_mem_map_toList {o : Option α} (hf : ∀ a, sizeOf (f a) = 1 + sizeOf a)
    (h : c ∈ o.toList.map f) : sizeOf c ≤ sizeOf o := by
  cases o <;> simp_all

theorem sizeOf_le_of_mem_map {as : List α} (hf : ∀ a, sizeOf (f a) = 1 + sizeOf a)
    (h : c ∈ as.map f) : sizeOf c ≤ sizeOf as := by
  obtain ⟨a, ha, rfl⟩ := List.mem_map.1 h
  have := List.sizeOf_lt_of_mem ha
  rw [hf]
  omega

end Size

theorem Select.sizeOf_le_of_mem_children {c : Node} {s : Select} (h : c ∈ s.children) :
    sizeOf c ≤ sizeOf s := by
  obtain ⟨distinct, targets, sources, condition, groups, having', windows, rows, order, offset,
    limit, style, locks, ctes, op, all, left, right⟩ := s
  simp only [children, List.mem_append, or_assoc] at h
  simp only [Select.mk.sizeOf_spec]
  rcases h with h | h | h | h | h | h | h | h | h | h | h | h | h | h | h
  · have := sizeOf_le_of_mem_map_toList (fun _ => rfl) h; omega
  · have := sizeOf_lt_of_mem_getD h; omega
  · have := sizeOf_le_of_mem_map (fun _ => rfl) h; omega
  · have := List.sizeOf_lt_of_mem h; omega
  · have := sizeOf_lt_of_mem_toList h; omega
  · have := List.sizeOf_lt_of_mem h; omega
  · have := sizeOf_lt_of_mem_toList h; omega
  · have := sizeOf_le_of_mem_map (fun _ => rfl) h; omega
  · have := sizeOf_lt_of_mem_flatten h; omega
  · have := sizeOf_le_of_mem_map_toList (fun _ => rfl) h; omega
  · have := sizeOf_le_of_mem_map_toList (fun _ => rfl) h; omega
  · have := sizeOf_le_of_mem_map (fun _ => rfl) h; omega
  · have := sizeOf_lt_of_mem_toList h; omega
  · have := sizeOf_lt_of_mem_toList h; omega
  · have := sizeOf_le_of_mem_map (fun _ => rfl) h; omega

theorem FrameBound.sizeOf_lt_of_mem_distances {c : Node} {b : FrameBound} (h : c ∈ b.distances) :
    sizeOf c < sizeOf b := by
  cases b <;> simp_all [distances]

theorem Frame.sizeOf_lt_of_mem_distances {c : Node} {f : Frame} (h : c ∈ f.distances) :
    sizeOf c < sizeOf f := by
  obtain ⟨_, start, stop, _⟩ := f
  simp only [distances, List.mem_append] at h
  rcases h with h | h
  · have := FrameBound.sizeOf_lt_of_mem_distances h
    simp
    omega
  · cases stop with
    | none => simp at h
    | some b =>
      have := FrameBound.sizeOf_lt_of_mem_distances h
      simp
      omega

theorem Step.sizeOf_le_of_mem_children {c : Node} {s : Step} (h : c ∈ s.children) :
    sizeOf c ≤ sizeOf s := by
  cases s <;> simp_all [children]

theorem sizeOf_le_of_mem_labelNodes {c : Node} {a : Option Alias} (h : c ∈ labelNodes a) :
    sizeOf c ≤ sizeOf a :=
  sizeOf_le_of_mem_map_toList (fun _ => rfl) h

theorem Insert.sizeOf_le_of_mem_children {c : Node} {s : Insert} (h : c ∈ s.children) :
    sizeOf c ≤ sizeOf s := by
  obtain ⟨table, columns, source, conflict, returning, ctes⟩ := s
  simp only [children, List.mem_append, List.mem_singleton, or_assoc] at h
  simp only [Insert.mk.sizeOf_spec]
  rcases h with h | rfl | h | h | h | h
  · have := sizeOf_le_of_mem_map_toList (fun _ => rfl) h; omega
  · simp only [Node.table.sizeOf_spec]; omega
  · have := sizeOf_le_of_mem_map (fun _ => rfl) h; omega
  · have := sizeOf_le_of_mem_map_toList (fun _ => rfl) h; omega
  · have := sizeOf_le_of_mem_map_toList (fun _ => rfl) h; omega
  · have := sizeOf_le_of_mem_map (fun _ => rfl) h; omega

theorem Update.sizeOf_le_of_mem_children {c : Node} {s : Update} (h : c ∈ s.children) :
    sizeOf c ≤ sizeOf s := by
  obtain ⟨table, assignments, condition, sources, returning, ctes⟩ := s
  simp only [children, List.mem_append, List.mem_singleton, or_assoc] at h
  simp only [Update.mk.sizeOf_spec]
  rcases h with h | rfl | h | h | h | h
  · have := sizeOf_le_of_mem_map_toList (fun _ => rfl) h; omega
  · simp only [Node.table.sizeOf_spec]; omega
  · have := sizeOf_le_of_mem_map (fun _ => rfl) h; omega
  · have := List.sizeOf_lt_of_mem h; omega
  · have := sizeOf_lt_of_mem_toList h; omega
  · have := sizeOf_le_of_mem_map (fun _ => rfl) h; omega

theorem Delete.sizeOf_le_of_mem_children {c : Node} {s : Delete} (h : c ∈ s.children) :
    sizeOf c ≤ sizeOf s := by
  obtain ⟨table, sources, condition, returning, ctes⟩ := s
  simp only [children, List.mem_append, List.mem_singleton, or_assoc] at h
  simp only [Delete.mk.sizeOf_spec]
  rcases h with h | rfl | h | h | h
  · have := sizeOf_le_of_mem_map_toList (fun _ => rfl) h; omega
  · simp only [Node.table.sizeOf_spec]; omega
  · have := List.sizeOf_lt_of_mem h; omega
  · have := sizeOf_lt_of_mem_toList h; omega
  · have := sizeOf_le_of_mem_map (fun _ => rfl) h; omega

theorem OnConflict.sizeOf_le_of_mem_children {c : Node} {s : OnConflict} (h : c ∈ s.children) :
    sizeOf c ≤ sizeOf s := by
  obtain ⟨action, target, assignments, condition⟩ := s
  simp only [children, List.mem_append, or_assoc] at h
  simp only [OnConflict.mk.sizeOf_spec]
  rcases h with h | h | h
  · have := sizeOf_le_of_mem_map_toList (fun _ => rfl) h; omega
  · have := sizeOf_le_of_mem_map (fun _ => rfl) h; omega
  · have := sizeOf_lt_of_mem_toList h; omega

theorem ConflictTarget.sizeOf_le_of_mem_children {c : Node} {t : ConflictTarget} (h : c ∈ t.children) :
    sizeOf c ≤ sizeOf t := by
  obtain ⟨elements, condition, constraint⟩ := t
  simp only [children, List.mem_append] at h
  simp only [ConflictTarget.mk.sizeOf_spec]
  rcases h with h | h
  · have := sizeOf_le_of_mem_map (fun _ => rfl) h; omega
  · have := sizeOf_lt_of_mem_toList h; omega

theorem Call.sizeOf_le_of_mem_children {c : Node} {s : Call} (h : c ∈ s.children) :
    sizeOf c ≤ sizeOf s := by
  obtain ⟨function, args, order, filter, window, star, distinct, form⟩ := s
  simp only [children, List.mem_append, or_assoc] at h
  simp only [Call.mk.sizeOf_spec]
  rcases h with h | h | h | h
  · have := List.sizeOf_lt_of_mem h; omega
  · have := sizeOf_le_of_mem_map (fun _ => rfl) h; omega
  · have := sizeOf_lt_of_mem_toList h; omega
  · have := sizeOf_le_of_mem_map_toList (fun _ => rfl) h; omega

theorem Window.sizeOf_le_of_mem_children {c : Node} {w : Window} (h : c ∈ w.children) :
    sizeOf c ≤ sizeOf w := by
  obtain ⟨name, base, partition, order, frame⟩ := w
  simp only [children, List.mem_append, or_assoc] at h
  simp only [Window.mk.sizeOf_spec]
  rcases h with h | h | h
  · have := List.sizeOf_lt_of_mem h; omega
  · have := sizeOf_le_of_mem_map (fun _ => rfl) h; omega
  · cases frame with
    | none => simp at h
    | some f =>
      have := Frame.sizeOf_lt_of_mem_distances h
      simp only [sizeOf_some]
      omega

theorem CreateIndex.sizeOf_le_of_mem_children {c : Node} {s : CreateIndex} (h : c ∈ s.children) :
    sizeOf c ≤ sizeOf s := by
  obtain ⟨name, table, method, elements, condition, unique, concurrently, ifNotExists⟩ := s
  simp only [children, List.mem_append, List.mem_singleton, or_assoc] at h
  simp only [CreateIndex.mk.sizeOf_spec]
  rcases h with rfl | h | h
  · simp only [Node.table.sizeOf_spec]; omega
  · have := sizeOf_le_of_mem_map (fun _ => rfl) h; omega
  · have := sizeOf_lt_of_mem_toList h; omega

theorem Constraint.sizeOf_le_of_mem_children {c : Node} {s : Constraint} (h : c ∈ s.children) :
    sizeOf c ≤ sizeOf s := by
  obtain ⟨kind, name, expression, keys, refTable, columns, refColumns, onDelete, onUpdate⟩ := s
  simp only [children, List.mem_append] at h
  simp only [Constraint.mk.sizeOf_spec]
  rcases h with h | h
  · have := sizeOf_lt_of_mem_toList h; omega
  · have := sizeOf_le_of_mem_map_toList (fun _ => rfl) h; omega

namespace Node

theorem sizeOf_pos (n : Node) : 0 < sizeOf n := by
  cases n <;> simp <;> omega

theorem weight_lt {c : Node} {k : Nat} (h : sizeOf c ≤ k) : c.weight < 1 + k := by
  have := weight_le_sizeOf c
  omega

/-- A child weighs less than its parent. -/
theorem weight_lt_of_mem_children {c n : Node} (h : c ∈ n.children) : c.weight < n.weight := by
  cases n with
  | const v =>
    obtain rfl := List.mem_singleton.1 h
    simp only [weight, const.sizeOf_spec]
    omega
  | select s => exact weight_lt (s.sizeOf_le_of_mem_children h)
  | insert s => exact weight_lt (s.sizeOf_le_of_mem_children h)
  | update s => exact weight_lt (s.sizeOf_le_of_mem_children h)
  | delete s => exact weight_lt (s.sizeOf_le_of_mem_children h)
  | createIndex s => exact weight_lt (s.sizeOf_le_of_mem_children h)
  | constraint s => exact weight_lt (s.sizeOf_le_of_mem_children h)
  | call s => exact weight_lt (s.sizeOf_le_of_mem_children h)
  | window s => exact weight_lt (s.sizeOf_le_of_mem_children h)
  | onConflict s => exact weight_lt (s.sizeOf_le_of_mem_children h)
  | conflictTarget s => exact weight_lt (s.sizeOf_le_of_mem_children h)
  | createTable t elements _ =>
    simp only [children, List.mem_cons] at h
    refine Nat.lt_of_le_of_lt (weight_le_sizeOf c) ?_
    simp only [weight, createTable.sizeOf_spec]
    rcases h with rfl | h
    · have := sizeOf_nodes_pos elements
      simp only [table.sizeOf_spec]; omega
    · have := List.sizeOf_lt_of_mem h; omega
  | columnDef s =>
    obtain ⟨name, type, constraints, collation⟩ := s
    simp only [children, List.mem_cons] at h
    refine Nat.lt_of_le_of_lt (weight_le_sizeOf c) ?_
    simp only [weight, columnDef.sizeOf_spec, ColumnDef.mk.sizeOf_spec]
    rcases h with rfl | h
    · simp only [typeName.sizeOf_spec]; omega
    · have := sizeOf_le_of_mem_map (fun _ => rfl) h; omega
  | indexElement s =>
    obtain ⟨column, expression, direction, nulls⟩ := s
    simp only [children] at h
    refine Nat.lt_of_le_of_lt (weight_le_sizeOf c) ?_
    simp only [weight, indexElement.sizeOf_spec, IndexElement.mk.sizeOf_spec]
    have := sizeOf_lt_of_mem_toList h
    omega
  | createView s =>
    obtain ⟨view, columns, query, replace⟩ := s
    simp only [children, List.mem_cons, List.not_mem_nil, or_false] at h
    refine Nat.lt_of_le_of_lt (weight_le_sizeOf c) ?_
    simp only [weight, createView.sizeOf_spec, CreateView.mk.sizeOf_spec]
    rcases h with rfl | rfl
    · simp only [table.sizeOf_spec]; omega
    · simp only [select.sizeOf_spec]; omega
  | truncate s =>
    obtain ⟨tables, restart, behavior⟩ := s
    simp only [children] at h
    refine Nat.lt_of_le_of_lt (weight_le_sizeOf c) ?_
    simp only [weight, truncate.sizeOf_spec, Truncate.mk.sizeOf_spec]
    have := sizeOf_le_of_mem_map (fun _ => rfl) h
    omega
  | setting action name values isLocal =>
    simp only [children] at h
    refine Nat.lt_of_le_of_lt (weight_le_sizeOf c) ?_
    simp only [weight, setting.sizeOf_spec]
    have := List.sizeOf_lt_of_mem h
    omega
  | operation kind name left right =>
    simp only [children, List.mem_append] at h
    refine Nat.lt_of_le_of_lt (weight_le_sizeOf c) ?_
    simp only [weight, operation.sizeOf_spec]
    rcases h with h | h
    · have := sizeOf_lt_of_mem_toList h; omega
    · have := sizeOf_lt_of_mem_toList h; omega
  | junction op args =>
    simp only [children] at h
    refine Nat.lt_of_le_of_lt (weight_le_sizeOf c) ?_
    simp only [weight, junction.sizeOf_spec]
    have := List.sizeOf_lt_of_mem h
    omega
  | nullTest arg negated =>
    simp only [children, List.mem_cons, List.not_mem_nil, or_false] at h
    refine Nat.lt_of_le_of_lt (weight_le_sizeOf c) ?_
    simp only [weight, nullTest.sizeOf_spec]
    subst h
    omega
  | truthTest arg truth negated =>
    simp only [children, List.mem_cons, List.not_mem_nil, or_false] at h
    refine Nat.lt_of_le_of_lt (weight_le_sizeOf c) ?_
    simp only [weight, truthTest.sizeOf_spec]
    subst h
    omega
  | subquery s =>
    obtain ⟨use, test, op, query⟩ := s
    simp only [children, List.mem_cons, List.not_mem_nil, or_false, List.mem_append] at h
    refine Nat.lt_of_le_of_lt (weight_le_sizeOf c) ?_
    simp only [weight, subquery.sizeOf_spec, Subquery.mk.sizeOf_spec]
    rcases h with h | rfl
    · have := sizeOf_lt_of_mem_toList h; omega
    · simp only [select.sizeOf_spec]; omega
  | namedArg name arg =>
    simp only [children, List.mem_cons, List.not_mem_nil, or_false] at h
    refine Nat.lt_of_le_of_lt (weight_le_sizeOf c) ?_
    simp only [weight, namedArg.sizeOf_spec]
    subst h
    omega
  | cast arg t =>
    simp only [children, List.mem_cons, List.not_mem_nil, or_false] at h
    refine Nat.lt_of_le_of_lt (weight_le_sizeOf c) ?_
    simp only [weight, cast.sizeOf_spec]
    rcases h with rfl | rfl
    · omega
    · have := arg.sizeOf_pos
      simp only [typeName.sizeOf_spec]; omega
  | typeName s =>
    obtain ⟨names, modifiers, bounds, setof⟩ := s
    simp only [children] at h
    refine Nat.lt_of_le_of_lt (weight_le_sizeOf c) ?_
    simp only [weight, typeName.sizeOf_spec, TypeName.mk.sizeOf_spec]
    have := List.sizeOf_lt_of_mem h
    omega
  | collate arg collation =>
    simp only [children, List.mem_cons, List.not_mem_nil, or_false] at h
    refine Nat.lt_of_le_of_lt (weight_le_sizeOf c) ?_
    simp only [weight, collate.sizeOf_spec]
    subst h
    omega
  | caseExpr operand arms otherwise =>
    simp only [children, List.mem_append, or_assoc] at h
    refine Nat.lt_of_le_of_lt (weight_le_sizeOf c) ?_
    simp only [weight, caseExpr.sizeOf_spec]
    rcases h with h | h | h
    · have := sizeOf_lt_of_mem_toList h; omega
    · have := sizeOf_le_of_mem_map (fun _ => rfl) h; omega
    · have := sizeOf_lt_of_mem_toList h; omega
  | caseArm s =>
    obtain ⟨condition, result⟩ := s
    simp only [children, List.mem_cons, List.not_mem_nil, or_false] at h
    refine Nat.lt_of_le_of_lt (weight_le_sizeOf c) ?_
    simp only [weight, caseArm.sizeOf_spec, CaseArm.mk.sizeOf_spec]
    rcases h with rfl | rfl
    · omega
    · omega
  | array elements =>
    simp only [children] at h
    refine Nat.lt_of_le_of_lt (weight_le_sizeOf c) ?_
    simp only [weight, array.sizeOf_spec]
    have := List.sizeOf_lt_of_mem h
    omega
  | indirection arg steps =>
    simp only [children, List.mem_cons] at h
    refine Nat.lt_of_le_of_lt (weight_le_sizeOf c) ?_
    simp only [weight, indirection.sizeOf_spec]
    rcases h with rfl | h
    · omega
    · obtain ⟨s, hs, h⟩ := List.mem_flatMap.1 h
      have := Step.sizeOf_le_of_mem_children h
      have := List.sizeOf_lt_of_mem hs
      omega
  | subscript s =>
    obtain ⟨slice, lower, upper⟩ := s
    simp only [children, List.mem_append] at h
    refine Nat.lt_of_le_of_lt (weight_le_sizeOf c) ?_
    simp only [weight, subscript.sizeOf_spec, Subscript.mk.sizeOf_spec]
    rcases h with h | h
    · have := sizeOf_lt_of_mem_toList h; omega
    · have := sizeOf_lt_of_mem_toList h; omega
  | row fields explicit =>
    simp only [children] at h
    refine Nat.lt_of_le_of_lt (weight_le_sizeOf c) ?_
    simp only [weight, row.sizeOf_spec]
    have := List.sizeOf_lt_of_mem h
    omega
  | coalesce args =>
    simp only [children] at h
    refine Nat.lt_of_le_of_lt (weight_le_sizeOf c) ?_
    simp only [weight, coalesce.sizeOf_spec]
    have := List.sizeOf_lt_of_mem h
    omega
  | extremum op args =>
    simp only [children] at h
    refine Nat.lt_of_le_of_lt (weight_le_sizeOf c) ?_
    simp only [weight, extremum.sizeOf_spec]
    have := List.sizeOf_lt_of_mem h
    omega
  | target s =>
    obtain ⟨name, value⟩ := s
    simp only [children] at h
    refine Nat.lt_of_le_of_lt (weight_le_sizeOf c) ?_
    simp only [weight, target.sizeOf_spec, Target.mk.sizeOf_spec]
    have := sizeOf_lt_of_mem_toList h
    omega
  | sortKey s =>
    obtain ⟨key, direction, nulls⟩ := s
    simp only [children, List.mem_cons, List.not_mem_nil, or_false] at h
    refine Nat.lt_of_le_of_lt (weight_le_sizeOf c) ?_
    simp only [weight, sortKey.sizeOf_spec, SortKey.mk.sizeOf_spec]
    subst h
    omega
  | table s =>
    obtain ⟨catalog, schema, name, only, persistence, label⟩ := s
    simp only [children] at h
    refine Nat.lt_of_le_of_lt (weight_le_sizeOf c) ?_
    simp only [weight, table.sizeOf_spec, TableRef.mk.sizeOf_spec]
    have := sizeOf_le_of_mem_labelNodes h
    omega
  | derivedTable s =>
    obtain ⟨lateral, query, label⟩ := s
    simp only [children, List.mem_cons] at h
    refine Nat.lt_of_le_of_lt (weight_le_sizeOf c) ?_
    simp only [weight, derivedTable.sizeOf_spec, DerivedTable.mk.sizeOf_spec]
    rcases h with rfl | h
    · simp only [select.sizeOf_spec]; omega
    · have := sizeOf_le_of_mem_labelNodes h; omega
  | tableFunction s =>
    obtain ⟨lateral, ordinality, function, label⟩ := s
    simp only [children, List.mem_cons] at h
    refine Nat.lt_of_le_of_lt (weight_le_sizeOf c) ?_
    simp only [weight, tableFunction.sizeOf_spec, TableFunction.mk.sizeOf_spec]
    rcases h with rfl | h
    · simp only [call.sizeOf_spec]; omega
    · have := sizeOf_le_of_mem_labelNodes h; omega
  | join s =>
    obtain ⟨kind, natural, left, right, columns, condition, label⟩ := s
    simp only [children, List.mem_cons, List.not_mem_nil, or_false, List.mem_append, or_assoc] at h
    refine Nat.lt_of_le_of_lt (weight_le_sizeOf c) ?_
    simp only [weight, join.sizeOf_spec, Join.mk.sizeOf_spec]
    rcases h with rfl | rfl | h | h
    · omega
    · omega
    · have := sizeOf_lt_of_mem_toList h; omega
    · have := sizeOf_le_of_mem_labelNodes h; omega
  | ctes s =>
    obtain ⟨items, recursive⟩ := s
    simp only [children] at h
    refine Nat.lt_of_le_of_lt (weight_le_sizeOf c) ?_
    simp only [weight, ctes.sizeOf_spec, With.mk.sizeOf_spec]
    have := sizeOf_le_of_mem_map (fun _ => rfl) h
    omega
  | cte s =>
    obtain ⟨name, columns, materialization, query⟩ := s
    simp only [children, List.mem_cons, List.not_mem_nil, or_false] at h
    refine Nat.lt_of_le_of_lt (weight_le_sizeOf c) ?_
    simp only [weight, cte.sizeOf_spec, Cte.mk.sizeOf_spec]
    subst h
    omega
  | locking s =>
    obtain ⟨tables, strength, wait⟩ := s
    simp only [children] at h
    refine Nat.lt_of_le_of_lt (weight_le_sizeOf c) ?_
    simp only [weight, locking.sizeOf_spec, Locking.mk.sizeOf_spec]
    have := sizeOf_le_of_mem_map (fun _ => rfl) h
    omega
  | list items =>
    simp only [children] at h
    refine Nat.lt_of_le_of_lt (weight_le_sizeOf c) ?_
    simp only [weight, list.sizeOf_spec]
    have := List.sizeOf_lt_of_mem h
    omega
  | drop _ | transaction _ | showSetting _ | column _ | param _ | valueFunction _ _ | default
  | tableAlias _ | literal _ => simp [children] at h

end Node

end SqlSyntax
