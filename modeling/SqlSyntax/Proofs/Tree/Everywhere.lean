import SqlSyntax.Tree.Building
import SqlSyntax.Tree.Walk

/-!
# Properties of all nodes of a tree

A property holds everywhere in a tree if it holds of the root and everywhere below the
children of the root.

## Main definitions

* `Node.All` — a property holds of a node and of all below it.

## Main results

* `Node.all_iff` — a property holds everywhere in a tree, step by step.
-/

namespace SqlSyntax

variable {P : Node → Prop}

/-- The property holds of the node and of all below it. -/
def Node.All (P : Node → Prop) (n : Node) : Prop :=
  ∀ m ∈ n.walk, P m

theorem Node.all_iff {n : Node} : n.All P ↔ P n ∧ ∀ c ∈ n.children, c.All P := by
  unfold Node.All
  rw [Node.walk_eq]
  simp only [List.mem_cons, List.mem_flatMap, forall_eq_or_imp, forall_exists_index, and_imp]
  exact and_congr_right fun _ => ⟨fun h c hc m hm => h m c hc hm, fun h m c hc hm => h c hc m hm⟩

theorem Node.All.self {n : Node} (h : n.All P) : P n :=
  (Node.all_iff.mp h).1

theorem Node.All.child {n c : Node} (h : n.All P) (hc : c ∈ n.children) : c.All P :=
  (Node.all_iff.mp h).2 c hc

end SqlSyntax
