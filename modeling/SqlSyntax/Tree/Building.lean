import SqlSyntax.Tree.Node

/-!
# Building trees

Nodes that are put together from others in a few usual ways.

## Main definitions

* `Node.joined` — two operands joined by `AND` or `OR`; chains stay flat.
* `Node.binary`, `Node.prefixed` — operators.
* `Select.combined` — two queries combined.
-/

namespace SqlSyntax

namespace Node

/-- Two operands joined by a connective.  A left operand that is joined by the
same connective takes the right one as a further operand. -/
def joined (op : Junction) (left right : Node) : Node :=
  match left with
  | junction op' args => if op' = op then junction op (args ++ [right]) else junction op [left, right]
  | _ => junction op [left, right]

/-- The negation of a truth value. -/
def negation (arg : Node) : Node :=
  junction .not [arg]

/-- An operator between two operands. -/
def binary (op : String) (left right : Node) : Node :=
  operation .op op (some left) (some right)

/-- An operator before its operand. -/
def prefixed (op : String) (arg : Node) : Node :=
  operation .op op none (some arg)

/-- A column with a plain name. -/
def ofNames (names : List String) : Node :=
  column (names.map ColumnField.name)

/-- An integer constant. -/
def integer (n : Int) : Node :=
  const (.integer n)

/-- A string constant. -/
def string (s : String) : Node :=
  const (.string s)

end Node

/-- Two queries combined. -/
def Select.combined (op : SetOp) (all : Bool) (left right : Select) : Select :=
  { op := op, all := all, left := some left, right := some right }

end SqlSyntax
