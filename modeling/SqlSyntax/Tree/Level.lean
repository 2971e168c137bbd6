import SqlSyntax.Tree.Node

/-!
# Levels of expressions

How tightly an expression binds is a number; an expression with a greater one
binds more tightly.  The same levels say where a written expression needs
parentheses and how far an operand reaches when it is read.

## Main definitions

* `Level.or` … `Level.primary` — the levels.
* `Level.ofOperator` — the level of an operator between two operands.
* `Node.level` — the level of an expression.
-/

namespace SqlSyntax

/-- A level of expressions. -/
abbrev Level := Nat

namespace Level

/-- `OR`. -/
abbrev or : Level := 1

/-- `AND`. -/
abbrev and : Level := 2

/-- `NOT`. -/
abbrev not : Level := 3

/-- The tests that start with `IS`. -/
abbrev is : Level := 4

/-- Comparisons. -/
abbrev comparison : Level := 5

/-- `IN`, `BETWEEN` and the pattern matches. -/
abbrev predicate : Level := 6

/-- Operators without a level of their own. -/
abbrev operator : Level := 8

/-- Addition and subtraction. -/
abbrev sum : Level := 9

/-- Multiplication and division. -/
abbrev product : Level := 10

/-- Powers. -/
abbrev power : Level := 11

/-- `AT TIME ZONE`. -/
abbrev timeZone : Level := 12

/-- `COLLATE`. -/
abbrev collate : Level := 13

/-- A sign in front. -/
abbrev sign : Level := 14

/-- A cast behind. -/
abbrev cast : Level := 16

/-- Expressions that need no parentheses anywhere. -/
abbrev primary : Level := 20

/-- The level of an operator between two operands. -/
def ofOperator (op : String) : Level :=
  if op ∈ ["=", "<", ">", "<=", ">=", "<>"] then comparison
  else if op ∈ ["+", "-"] then sum
  else if op ∈ ["*", "/", "%"] then product
  else if op = "^" then power
  else operator

/-- Whether an operator is a sign. -/
def isSignOperator (op : String) : Bool :=
  op == "-" || op == "+"

/-- The level of an operator before its operand. -/
def ofPrefix (op : String) : Level :=
  if isSignOperator op then sign else operator

end Level

/-! ### Parts that belong to the system -/

/-- The schema of the functions and types that come with the system. -/
def systemSchema : String :=
  "pg_catalog"

/-- The dotted name of a function or type that comes with the system. -/
def systemName (name : String) : List String :=
  [systemSchema, name]

namespace Call

/-- A call of a system function that has a syntax of its own. -/
def system (name : String) (args : List Node) : Call :=
  { function := systemName name, args := args, form := .special }

/-- Whether a call is of a system function and is written in the syntax of that
function. -/
def isSpecial (name : String) (c : Call) : Bool :=
  c.function == systemName name && c.form == .special

end Call

namespace Node

/-- The level of an operation. -/
def operationLevel (kind : OperationKind) (name : String) (left : Option Node) : Level :=
  match kind with
  | .op | .opAny | .opAll => if left.isNone then Level.ofPrefix name else Level.ofOperator name
  | .distinct | .notDistinct => Level.is
  | .nullIf => Level.primary
  | _ => Level.predicate

/-- The level of a subquery. -/
def subqueryLevel (use : SubqueryUse) (op : Option String) : Level :=
  match use, op with
  | .forAny, none => Level.predicate
  | .forAny, some op | .forAll, some op => Level.ofOperator op
  | _, _ => Level.primary

/-- The level of an expression. -/
def level : Node → Level
  | junction .or _ => Level.or
  | junction .and _ => Level.and
  | junction .not _ => Level.not
  | nullTest _ _ | truthTest _ _ _ => Level.is
  | operation kind name left _ => operationLevel kind name left
  | subquery s => subqueryLevel s.use s.op
  | collate _ _ => Level.collate
  | call c => if c.isSpecial "timezone" && c.args.length == 2 then Level.timeZone else Level.primary
  | const v => if v.isNegative then Level.sign else Level.primary
  | _ => Level.primary

end Node

end SqlSyntax
