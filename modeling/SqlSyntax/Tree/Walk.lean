import SqlSyntax.Tree.Weight

/-!
# Traversal

A traversal visits a node and then, one after the other, what is below its
children.

## Main definitions

* `Node.walk` — a node with all below it, depth first.
-/

namespace SqlSyntax

namespace Node

/-- A node and all below it: first the node, then what is below its children,
from the first to the last. -/
def walk (n : Node) : List Node :=
  n :: n.children.attach.flatMap fun ⟨c, _⟩ => walk c
termination_by n.weight
decreasing_by exact weight_lt_of_mem_children ‹_›

/-- A traversal visits a node and then traverses its children in order. -/
theorem walk_eq (n : Node) : n.walk = n :: n.children.flatMap walk := by
  rw [walk]
  simp

end Node

end SqlSyntax
