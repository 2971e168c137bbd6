import SqlSyntax.Rendering.Node
import SqlSyntax.Tree.Tag
import SqlSyntax.Tree.Walk

/-!
# Statements in place

A statement of a script knows where it stands.  It is the root of its tree, with
the statement itself as its only child.

## Main definitions

* `RawStatement` — a statement with its place in the script.
* `Visit`, `Node.visits`, `RawStatement.visits` — what a traversal meets.
-/

namespace SqlSyntax

/-- A statement with its place in the script. -/
structure RawStatement where
  /-- The statement. -/
  node : Node
  /-- The offset of its first byte. -/
  location : Nat
  /-- The number of its bytes. -/
  length : Nat

/-- What a traversal meets at a node. -/
structure Visit where
  /-- The tag of the node. -/
  tag : Tag
  /-- The number of its children. -/
  children : Nat
  /-- The text of the node. -/
  text : String
  deriving DecidableEq, Repr

namespace Node

/-- What a traversal meets at a node. -/
def visit (n : Node) : Visit :=
  ⟨n.tag, n.children.length, n.text⟩

/-- What a traversal from a node on meets. -/
def visits (n : Node) : List Visit :=
  n.walk.map visit

end Node

namespace RawStatement

/-- The text of a statement. -/
def text (s : RawStatement) : String :=
  s.node.text

/-- What a traversal from a statement in place on meets. -/
def visits (s : RawStatement) : List Visit :=
  ⟨.statement, 1, s.text⟩ :: s.node.visits

end RawStatement

end SqlSyntax
