import SqlSyntax.Rendering.Leaf
import SqlSyntax.Rendering.TypeSpelling

/-!
# How trees are written

A node is written as a sequence of pieces.  An operand goes between parentheses
unless its level says that it will be read back in its place.

## Main definitions

* `Operand` — a written expression with its level.
* `Operand.loose`, `Operand.tight` — an operand at the side where a chain of
  operators of its level continues, and at the other.
* `Node.pieces`, `Node.text` — a node as pieces and as text.
-/

namespace SqlSyntax

/-! ### Operands -/

/-- A written expression with its level. -/
structure Operand where
  /-- How tightly it binds. -/
  level : Level
  /-- The expression without parentheses around it. -/
  pieces : List Piece
  deriving DecidableEq, Repr

namespace Operand

/-- The operand, between parentheses if `wrap` holds. -/
def wrapIf (o : Operand) (wrap : Bool) : List Piece :=
  if wrap then parens o.pieces else o.pieces

/-- An operand that binds at least as tightly as `l`. -/
def loose (l : Level) (o : Operand) : List Piece :=
  o.wrapIf (o.level < l)

/-- An operand that binds more tightly than `l`. -/
def tight (l : Level) (o : Operand) : List Piece :=
  o.wrapIf (o.level ≤ l)

/-- The left operand of an operator.  Comparisons do not form chains. -/
def left (l : Level) (o : Operand) : List Piece :=
  if l = Level.comparison then o.tight l else o.loose l

end Operand

/-! ### Operations -/

/-- Whether an operator stands for the negation of a predicate. -/
def isNegatedName (name : String) : Bool :=
  name.toList.head? = some '!' || name == "<>"

/-- An operation that has no syntax: its parts with gaps between them. -/
def looseParts (name : String) (left : Option Operand) (right : Option (List Piece)) :
    List Piece :=
  left.elim [] (fun l => l.pieces ++ [.gap]) ++ .operator name
    :: right.elim [] (fun r => .gap :: r)

/-- A word between two operands of level `l`, none of which may continue a chain
of that level. -/
def predicatePieces (l : Level) (ks : List Keyword) (left : Operand) (right : List Piece) :
    List Piece :=
  left.tight l ++ .gap :: words ks ++ .gap :: right

/-- The words of a predicate, with `NOT` in front if it is negated. -/
def negatedWords (negated : Bool) (ks : List Keyword) : List Keyword :=
  if negated then .NOT :: ks else ks

/-- The right operand of an operation. -/
inductive RightOperand
  /-- An operand like any other. -/
  | whole (o : Operand)
  /-- The bounds of a range. -/
  | bounds (low high : Operand)
  /-- A pattern, with its escape character if it has one. -/
  | pattern (p : Operand) (escape : Option Operand)
  deriving DecidableEq, Repr

/-- Whether a range test is negated, and whether its bounds may come in any
order. -/
def rangeForm : OperationKind → Bool × Bool
  | .notBetween => (true, false)
  | .betweenSymmetric => (false, true)
  | .notBetweenSymmetric => (true, true)
  | _ => (false, false)

/-- Whether an operation is a range test. -/
def isRangeTest : OperationKind → Bool
  | .between | .notBetween | .betweenSymmetric | .notBetweenSymmetric => true
  | _ => false

/-- The bounds of a range. -/
def boundsPieces (low high : Operand) : List Piece :=
  low.tight Level.predicate ++ .gap :: .word .AND :: .gap :: high.tight Level.predicate

/-- A range test with its two bounds. -/
def rangePieces (kind : OperationKind) (left low high : Operand) : List Piece :=
  let (negated, symmetric) := rangeForm kind
  predicatePieces Level.predicate
    (negatedWords negated (if symmetric then [.BETWEEN, .SYMMETRIC] else [.BETWEEN])) left
    (boundsPieces low high)

/-- The words of a pattern match, and the function that stands for its escape
character. -/
def matchForm? : OperationKind → Option (List Keyword × String)
  | .like => some ([.LIKE], "like_escape")
  | .ilike => some ([.ILIKE], "like_escape")
  | .similar => some ([.SIMILAR, .TO], "similar_to_escape")
  | _ => none

/-- The pattern of a match. -/
def patternPieces (p : Operand) (escape : Option Operand) : List Piece :=
  p.tight Level.predicate
    ++ escape.elim [] fun e => .gap :: .word .ESCAPE :: .gap :: e.tight Level.predicate

/-- A pattern match. -/
def matchPieces (kind : OperationKind) (name : String) (left : Operand) (right : List Piece) :
    List Piece :=
  let ks := (matchForm? kind).elim [] Prod.fst
  predicatePieces Level.predicate (negatedWords (isNegatedName name) ks) left right

/-- A right operand, without parentheses around it. -/
def RightOperand.pieces : RightOperand → List Piece
  | whole o => o.pieces
  | bounds low high => boundsPieces low high
  | pattern p e => patternPieces p e

/-- An operator before its operand. -/
def prefixedPieces (name : String) (right : Operand) : List Piece :=
  if Level.isSignOperator name then .operator name :: right.tight Level.sign
  else .operator name :: .gap :: right.tight Level.operator

/-- An operation on two operands. -/
def binaryPieces (kind : OperationKind) (name : String) (l r : Operand) : List Piece :=
  let level := Level.ofOperator name
  match kind with
  | .op => l.left level ++ .gap :: .operator name :: .gap :: r.tight level
  | .opAny =>
    l.left level ++ .gap :: .operator name :: .gap :: .word .ANY :: .gap :: parens r.pieces
  | .opAll =>
    l.left level ++ .gap :: .operator name :: .gap :: .word .ALL :: .gap :: parens r.pieces
  | .distinct => predicatePieces Level.is [.IS, .DISTINCT, .FROM] l (r.tight Level.is)
  | .notDistinct => predicatePieces Level.is [.IS, .NOT, .DISTINCT, .FROM] l (r.tight Level.is)
  | .nullIf => .word .NULLIF :: parens (commas [l.pieces, r.pieces])
  | .inList =>
    predicatePieces Level.predicate (negatedWords (isNegatedName name) [.IN]) l (parens r.pieces)
  | .like | .ilike | .similar => matchPieces kind name l (r.tight Level.predicate)
  | _ => looseParts name (some l) (some r.pieces)

/-- An operation. -/
def operationPieces (kind : OperationKind) (name : String) (left : Option Operand)
    (right : Option RightOperand) : List Piece :=
  match left, right with
  | some l, some (.whole r) => binaryPieces kind name l r
  | some l, some (.bounds low high) => rangePieces kind l low high
  | some l, some (.pattern p e) => matchPieces kind name l (patternPieces p e)
  | none, some (.whole r) =>
    if kind = .op then prefixedPieces name r else looseParts name none (some r.pieces)
  | l, r => looseParts name l (r.map RightOperand.pieces)

/-- Operands joined by `AND` or `OR`, or the operand of `NOT`. -/
def junctionPieces (op : Junction) (args : List Operand) : List Piece :=
  match op, args with
  | .not, args => .word .NOT :: args.flatMap fun a => .gap :: a.tight Level.not
  | .and, a :: rest =>
    a.loose Level.and
      ++ rest.flatMap fun b => .gap :: .word .AND :: .gap :: b.tight Level.and
  | .or, a :: rest =>
    a.loose Level.or
      ++ rest.flatMap fun b => .gap :: .word .OR :: .gap :: b.tight Level.or
  | _, [] => []

/-- A subquery in an expression, from the query as it is written. -/
def subqueryPieces (use : SubqueryUse) (test : Option Operand) (op : Option String)
    (query : List Piece) : List Piece :=
  match use, test, op with
  | .existence, _, _ => .word .EXISTS :: .gap :: parens query
  | .array, _, _ => .word .ARRAY :: parens query
  | .forAny, some t, none => predicatePieces Level.predicate [.IN] t (parens query)
  | .forAny, some t, some op =>
    t.left (Level.ofOperator op)
      ++ .gap :: .operator op :: .gap :: .word .ANY :: .gap :: parens query
  | .forAll, some t, some op =>
    t.left (Level.ofOperator op)
      ++ .gap :: .operator op :: .gap :: .word .ALL :: .gap :: parens query
  | _, _, _ => parens query

/-! ### Calls -/

/-- A system function in its own syntax, if it has one for these arguments. -/
def specialCall? (function : List String) (args : List Node) (ops : List Operand) :
    Option (List Piece) :=
  if function = systemName "extract" then
    match args, ops with
    | [.const (.string field), _], [_, source] =>
      let piece := if Quoted.isBareName field.toList then .name field else .literal (.string field)
      some (.word .EXTRACT :: parens (piece :: .gap :: .word .FROM :: .gap :: source.pieces))
    | _, _ => none
  else if function = systemName "timezone" then
    match ops with
    | [zone, source] =>
      some (source.loose Level.timeZone ++ .gap :: words [.AT, .TIME, .ZONE]
        ++ .gap :: zone.tight Level.timeZone)
    | _ => none
  else none

/-! ### Queries -/

/-- Whether a query has a clause that applies behind combinations. -/
def Select.hasTail (s : Select) : Bool :=
  !s.order.isEmpty || s.limit.isSome || s.offset.isSome || !s.locks.isEmpty || s.ctes.isSome

/-- Whether the first of two combined queries needs parentheses. -/
def Select.wrapsLeft (op : SetOp) (s : Select) : Bool :=
  s.hasTail || s.op.precedence < op.precedence

/-- Whether the second of two combined queries needs parentheses. -/
def Select.wrapsRight (op : SetOp) (s : Select) : Bool :=
  s.hasTail || s.op.precedence ≤ op.precedence

/-- Pieces, between parentheses if `wrap` holds. -/
def parensIf (wrap : Bool) (ps : List Piece) : List Piece :=
  if wrap then parens ps else ps

/-- Two queries as a combination. -/
def combinedPieces (op : SetOp) (all : Bool) (left right : List Piece) : List Piece :=
  left ++ .gap :: words op.words ++ suffixIf all [.ALL] ++ .gap :: right

/-- The words behind `SELECT` that drop duplicates. -/
def distinctPieces : Option (List Operand) → List Piece
  | none => []
  | some [] => [.gap, .word .DISTINCT]
  | some keys => clause [.DISTINCT, .ON] (parens (commas (keys.map Operand.pieces)))

/-- Whether a number of rows stands for all rows. -/
def isAllRows : Node → Bool
  | .literal .null | .const .null => true
  | _ => false

/-- The clauses that limit the rows of a query. -/
def limitPieces (style : LimitStyle) (all : Bool) (limit offset : Option Operand) : List Piece :=
  let offsetClause := optionalClause [.OFFSET] (offset.map Operand.pieces)
  if style = .withTies then
    offsetClause ++ limit.elim [] fun n =>
      clause [.FETCH, .FIRST] (n.wrapIf (n.level < Level.primary))
        ++ suffixWords [.ROWS, .WITH, .TIES]
  else
    limit.elim [] (fun n => clause [.LIMIT] (if all then [.word .ALL] else n.pieces))
      ++ offsetClause

/-- The word for a join. -/
def Join.words (kind : JoinKind) (crossed : Bool) : List Keyword :=
  match kind with
  | .inner => if crossed then [.CROSS, .JOIN] else [.JOIN]
  | .left => [.LEFT, .JOIN]
  | .right => [.RIGHT, .JOIN]
  | .full => [.FULL, .JOIN]

/-- Whether a table item is a join without a name. -/
def isOpenJoin : Node → Bool
  | .join j => j.label.isNone
  | _ => false

/-- Whether the expression of an index needs no parentheses. -/
def isPlainCall : Node → Bool
  | .call c => c.form == .regular
  | _ => false

/-- Whether steps can follow a value without parentheses. -/
def takesSteps : Node → Bool
  | .column _ | .param _ => true
  | _ => false

/-- Whether the right operand of a pattern match is a call of the function that
stands for its escape character. -/
def isEscapeCall (kind : OperationKind) : Node → Bool
  | .call c => (matchForm? kind).any fun form => c.isSpecial form.2
  | _ => false

/-! ### Nodes -/

mutual

/-- A node. -/
def Node.pieces : Node → List Piece
  | .select s => s.pieces
  | .insert s => s.pieces
  | .update s => s.pieces
  | .delete s => s.pieces
  | .createTable t es ifNotExists =>
    .word .CREATE :: .gap :: t.persistence.pieces ++ .word .TABLE
      :: .gap :: wordsIf ifNotExists [.IF, .NOT, .EXISTS] ++ t.pieces
      ++ .gap :: parens (commas (nodesPieces es))
  | .columnDef c => c.pieces
  | .constraint c => c.pieces
  | .createIndex s => s.pieces
  | .indexElement e => e.pieces
  | .createView s => s.pieces
  | .drop s => s.pieces
  | .truncate s => s.pieces
  | .transaction s => s.pieces
  | .setting action name vs isLocal =>
    let name := settingNamePieces (name.getD "")
    let start := .word .SET :: .gap :: wordsIf isLocal [.LOCAL] ++ name
    match action with
    | .set => start ++ clause [.TO] (commas (nodesPieces vs))
    | .setDefault => start ++ suffixWords [.TO, .DEFAULT]
    | .reset => .word .RESET :: .gap :: name
    | .resetAll => words [.RESET, .ALL]
  | .showSetting name =>
    .word .SHOW :: .gap :: if name = "all" then [.word .ALL] else settingNamePieces name
  | .column fields => columnPieces fields
  | .param n => [.mark (.param n)]
  | .const v => [.literal v]
  | .operation kind name l r =>
    operationPieces kind name (operand? l) (rightOperand? kind l.isSome r)
  | .junction op args => junctionPieces op (operands args)
  | .nullTest a negated =>
    (Operand.mk a.level a.pieces).tight Level.is
      ++ suffixWords (if negated then [.IS, .NOT, .NULL] else [.IS, .NULL])
  | .truthTest a truth negated =>
    (Operand.mk a.level a.pieces).tight Level.is
      ++ suffixWords (if negated then [.IS, .NOT, truth.word] else [.IS, truth.word])
  | .subquery s => s.pieces
  | .call c => c.pieces
  | .namedArg name a => .name name :: .gap :: .mark .equalsGreater :: .gap :: a.pieces
  | .window w => w.pieces
  | .cast a t => .word .CAST :: parens (a.pieces ++ clause [.AS] t.pieces)
  | .typeName t => t.pieces
  | .collate a collation =>
    (Operand.mk a.level a.pieces).loose Level.collate ++ clause [.COLLATE] (dotted collation)
  | .caseExpr o arms e =>
    .word .CASE :: (operand? o).elim [] (fun o => .gap :: o.pieces)
      ++ (armsPieces arms).flatMap (fun a => .gap :: a)
      ++ optionalClause [.ELSE] ((operand? e).map Operand.pieces) ++ suffixWords [.END]
  | .caseArm a => a.pieces
  | .array es => .word .ARRAY :: brackets (commas (nodesPieces es))
  | .indirection a steps => parensIf (!takesSteps a) a.pieces ++ stepsPieces steps
  | .subscript s => s.pieces
  | .row fs explicit =>
    (if explicit || fs.length < 2 then [.word .ROW] else []) ++ parens (commas (nodesPieces fs))
  | .coalesce args => .word .COALESCE :: parens (commas (nodesPieces args))
  | .extremum op args => .word op.word :: parens (commas (nodesPieces args))
  | .valueFunction f precision =>
    .word f.word :: precision.elim [] fun p => parens [.mark (.integer p)]
  | .default => [.word .DEFAULT]
  | .target t => t.pieces
  | .sortKey k => k.pieces
  | .table t => t.pieces
  | .tableAlias a => a.pieces
  | .derivedTable t => t.pieces
  | .tableFunction t => t.pieces
  | .join j => j.pieces
  | .ctes w => w.pieces
  | .cte c => c.pieces
  | .onConflict c => c.pieces
  | .conflictTarget t => t.pieces
  | .locking l => l.pieces
  | .list ns => commas (nodesPieces ns)
  | .literal v => [.literal v]

/-- Nodes, each for itself. -/
def nodesPieces : List Node → List (List Piece)
  | [] => []
  | n :: ns => n.pieces :: nodesPieces ns

/-- Nodes as operands. -/
def operands : List Node → List Operand
  | [] => []
  | n :: ns => ⟨n.level, n.pieces⟩ :: operands ns

/-- A node, if there is one, as operand. -/
def operand? : Option Node → Option Operand
  | none => none
  | some n => some ⟨n.level, n.pieces⟩

/-- The right operand of an operation, if there is one.  `hasLeft` says that there
is a left one too. -/
def rightOperand? (kind : OperationKind) (hasLeft : Bool) : Option Node → Option RightOperand
  | none => none
  | some n =>
    match hasLeft && isRangeTest kind, n with
    | true, .list [low, high] => some (.bounds ⟨low.level, low.pieces⟩ ⟨high.level, high.pieces⟩)
    | _, n =>
      match hasLeft && isEscapeCall kind n, n with
      | true, .call ⟨_, [p], _, _, _, _, _, _⟩ => some (.pattern ⟨p.level, p.pieces⟩ none)
      | true, .call ⟨_, [p, e], _, _, _, _, _, _⟩ =>
        some (.pattern ⟨p.level, p.pieces⟩ (some ⟨e.level, e.pieces⟩))
      | _, n => some (.whole ⟨n.level, n.pieces⟩)

/-- A function call. -/
def Call.pieces : Call → List Piece
  | ⟨function, args, order, filter, window, star, distinct, form⟩ =>
    let ops := SqlSyntax.operands args
    let inner :=
      if star then [.mark .star]
      else wordsIf distinct [.DISTINCT] ++ commas (ops.map Operand.pieces)
        ++ listClause [.ORDER, .BY] (sortKeysPieces order)
    let plain :=
      dotted function ++ parens inner
        ++ optionalClause [.FILTER]
            ((operand? filter).map fun f => parens (.word .WHERE :: .gap :: f.pieces))
        ++ overPieces window
    if form = .special then (specialCall? function args ops).getD plain else plain

/-- The `OVER` clause of a call. -/
def overPieces : Option Window → List Piece
  | none => []
  | some w => clause [.OVER] (w.name.elim w.pieces fun s => [.name s])

/-- A window in parentheses. -/
def Window.pieces : Window → List Piece
  | ⟨_, base, part, order, frame⟩ =>
    parens (spaced (base.toList.map (fun s => [.name s])
      ++ (if part.isEmpty then []
          else [words [.PARTITION, .BY] ++ .gap :: commas (nodesPieces part)])
      ++ (if order.isEmpty then []
          else [words [.ORDER, .BY] ++ .gap :: commas (sortKeysPieces order)])
      ++ framePieces? frame))

/-- The frame of a window, if there is one. -/
def framePieces? : Option Frame → List (List Piece)
  | none => []
  | some f => [f.pieces]

/-- The frame of a window. -/
def Frame.pieces : Frame → List Piece
  | ⟨mode, start, stop, exclusion⟩ =>
    .word mode.word :: .gap :: (match stop with
      | none => start.pieces
      | some b =>
        .word .BETWEEN :: .gap :: start.pieces ++ .gap :: .word .AND :: .gap :: b.pieces)
      ++ exclusion.elim [] fun e => suffixWords (.EXCLUDE :: e.words)

/-- An end of a window frame. -/
def FrameBound.pieces : FrameBound → List Piece
  | .unboundedPreceding => words [.UNBOUNDED, .PRECEDING]
  | .preceding n => n.pieces ++ [.gap, .word .PRECEDING]
  | .currentRow => words [.CURRENT, .ROW]
  | .following n => n.pieces ++ [.gap, .word .FOLLOWING]
  | .unboundedFollowing => words [.UNBOUNDED, .FOLLOWING]

/-- A subquery in an expression. -/
def Subquery.pieces : Subquery → List Piece
  | ⟨use, test, op, query⟩ => subqueryPieces use (operand? test) op query.pieces

/-- The name of a type. -/
def TypeName.pieces : TypeName → List Piece
  | ⟨names, modifiers, bounds, setof⟩ =>
    wordsIf setof [.SETOF]
      ++ typePieces names (modifiers.mapM integerOf?) (nodesPieces modifiers)
      ++ boundPieces bounds

/-- An arm of a `CASE` expression. -/
def CaseArm.pieces : CaseArm → List Piece
  | ⟨condition, result⟩ =>
    .word .WHEN :: .gap :: condition.pieces ++ clause [.THEN] result.pieces

/-- The arms of a `CASE` expression. -/
def armsPieces : List CaseArm → List (List Piece)
  | [] => []
  | a :: as => a.pieces :: armsPieces as

/-- A subscript or slice. -/
def Subscript.pieces : Subscript → List Piece
  | ⟨slice, lower, upper⟩ =>
    let part (o : Option Operand) : List Piece := o.elim [] Operand.pieces
    brackets ((if slice then part (operand? lower) ++ [.mark .colon] else [])
      ++ part (operand? upper))

/-- A step into a value. -/
def Step.pieces : Step → List Piece
  | .subscript s => s.pieces
  | .field name => [.mark .dot, .name name]
  | .star => [.mark .dot, .mark .star]

/-- Steps into a value. -/
def stepsPieces : List Step → List Piece
  | [] => []
  | s :: ss => s.pieces ++ stepsPieces ss

/-- A query. -/
def Select.pieces : Select → List Piece
  | ⟨distinct, targets, sources, condition, groups, having, windows, rows, order, offset, limit,
      style, locks, ctes, op, all, left, right⟩ =>
    withPieces ctes
      ++ (match left, right with
        | some l, some r =>
          combinedPieces op all (parensIf (l.wrapsLeft op) l.pieces)
            (parensIf (r.wrapsRight op) r.pieces)
        | _, _ =>
          if rows.isEmpty then
            .word .SELECT :: distinctPieces (keysPieces distinct)
              ++ (if targets.isEmpty then [] else .gap :: commas (targetsPieces targets))
              ++ listClause [.FROM] (nodesPieces sources)
              ++ optionalClause [.WHERE] ((operand? condition).map Operand.pieces)
              ++ listClause [.GROUP, .BY] (nodesPieces groups)
              ++ optionalClause [.HAVING] ((operand? having).map Operand.pieces)
              ++ listClause [.WINDOW] (windowsPieces windows)
          else .word .VALUES :: .gap :: commas (rowsPieces rows))
      ++ listClause [.ORDER, .BY] (sortKeysPieces order)
      ++ limitPieces style (limit.any isAllRows) (operand? limit) (operand? offset)
      ++ locks.flatMap (fun l => .gap :: l.pieces)

/-- The keys of `DISTINCT ON`, if duplicates are dropped. -/
def keysPieces : Option (List Node) → Option (List Operand)
  | none => none
  | some ns => some (operands ns)

/-- Windows with their names. -/
def windowsPieces : List Window → List (List Piece)
  | [] => []
  | w :: ws => (.name (w.name.getD "") :: clause [.AS] w.pieces) :: windowsPieces ws

/-- The rows of `VALUES`. -/
def rowsPieces : List (List Node) → List (List Piece)
  | [] => []
  | row :: rows => parens (commas (nodesPieces row)) :: rowsPieces rows

/-- The common table expressions before a statement, with a gap behind. -/
def withPieces : Option With → List Piece
  | none => []
  | some w => w.pieces ++ [.gap]

/-- The common table expressions before a statement. -/
def With.pieces : With → List Piece
  | ⟨items, recursive⟩ =>
    .word .WITH :: .gap :: wordsIf recursive [.RECURSIVE] ++ commas (ctesPieces items)

/-- Common table expressions. -/
def ctesPieces : List Cte → List (List Piece)
  | [] => []
  | c :: cs => c.pieces :: ctesPieces cs

/-- A common table expression. -/
def Cte.pieces : Cte → List Piece
  | ⟨name, columns, materialization, query⟩ =>
    .name name :: nameListIfAny [] columns
      ++ clause (.AS :: materialization.words) (parens query.pieces)

/-- An output column, a column to fill, or an assignment as an output column. -/
def Target.pieces : Target → List Piece
  | ⟨name, value⟩ =>
    match operand? value, name with
    | some v, some s => v.pieces ++ clause [.AS] [.name s]
    | some v, none => v.pieces
    | none, some s => [.name s]
    | none, none => []

/-- Output columns or columns to fill. -/
def targetsPieces : List Target → List (List Piece)
  | [] => []
  | t :: ts => t.pieces :: targetsPieces ts

/-- A target as an assignment. -/
def Target.assignment : Target → List Piece
  | ⟨name, value⟩ =>
    .name (name.getD "")
      :: (operand? value).elim [] fun v => .gap :: .mark .eq :: .gap :: v.pieces

/-- Assignments. -/
def assignmentsPieces : List Target → List (List Piece)
  | [] => []
  | t :: ts => t.assignment :: assignmentsPieces ts

/-- A sort key. -/
def SortKey.pieces : SortKey → List Piece
  | ⟨key, direction, nulls⟩ => key.pieces ++ direction.pieces ++ suffixWords nulls.words

/-- Sort keys. -/
def sortKeysPieces : List SortKey → List (List Piece)
  | [] => []
  | k :: ks => k.pieces :: sortKeysPieces ks

/-- A subquery as a table item. -/
def DerivedTable.pieces : DerivedTable → List Piece
  | ⟨lateral, query, label⟩ =>
    wordsIf lateral [.LATERAL] ++ parens query.pieces ++ labelPieces label

/-- A function call as a table item. -/
def TableFunction.pieces : TableFunction → List Piece
  | ⟨lateral, ordinality, call, label⟩ =>
    wordsIf lateral [.LATERAL] ++ call.pieces ++ suffixIf ordinality [.WITH, .ORDINALITY]
      ++ labelPieces label

/-- Two joined table items.  A name takes parentheses around the join. -/
def Join.pieces : Join → List Piece
  | ⟨kind, natural, left, right, columns, condition, label⟩ =>
    let crossed := !natural && condition.isNone && columns.isEmpty
    let joined :=
      left.pieces ++ .gap :: wordsIf natural [.NATURAL] ++ words (Join.words kind crossed)
        ++ .gap :: parensIf (isOpenJoin right) right.pieces
        ++ (if columns.isEmpty then
              optionalClause [.ON] ((operand? condition).map Operand.pieces)
            else clause [.USING] (parens (nameList columns)))
    parensIf label.isSome joined ++ labelPieces label

/-- An `INSERT` statement. -/
def Insert.pieces : Insert → List Piece
  | ⟨table, columns, source, conflict, returning, ctes⟩ =>
    withPieces ctes ++ words [.INSERT, .INTO] ++ .gap :: table.pieces
      ++ (if columns.isEmpty then [] else .gap :: parens (commas (targetsPieces columns)))
      ++ (match source with
        | some s => .gap :: s.pieces
        | none => suffixWords [.DEFAULT, .VALUES])
      ++ conflictPieces? conflict
      ++ listClause [.RETURNING] (targetsPieces returning)

/-- The `ON CONFLICT` clause, if there is one, with a gap in front. -/
def conflictPieces? : Option OnConflict → List Piece
  | none => []
  | some c => .gap :: c.pieces

/-- The `ON CONFLICT` clause. -/
def OnConflict.pieces : OnConflict → List Piece
  | ⟨action, target, assignments, condition⟩ =>
    words [.ON, .CONFLICT]
      ++ (match target with
        | some t => .gap :: t.pieces
        | none => [])
      ++ (match action with
        | .nothing => suffixWords [.DO, .NOTHING]
        | .update =>
          clause [.DO, .UPDATE, .SET] (commas (assignmentsPieces assignments))
            ++ optionalClause [.WHERE] ((operand? condition).map Operand.pieces))

/-- The conflicts that a clause is meant for. -/
def ConflictTarget.pieces : ConflictTarget → List Piece
  | ⟨elements, condition, constraint⟩ =>
    match constraint with
    | some s => words [.ON, .CONSTRAINT] ++ [.gap, .name s]
    | none =>
      parens (commas (elementsPieces elements))
        ++ optionalClause [.WHERE] ((operand? condition).map Operand.pieces)

/-- A column or expression of an index. -/
def IndexElement.pieces : IndexElement → List Piece
  | ⟨column, expression, direction, nulls⟩ =>
    (match column, expression with
      | some s, _ => [.name s]
      | none, some e => parensIf (!isPlainCall e) e.pieces
      | none, none => [])
      ++ direction.pieces ++ suffixWords nulls.words

/-- Columns and expressions of an index. -/
def elementsPieces : List IndexElement → List (List Piece)
  | [] => []
  | e :: es => e.pieces :: elementsPieces es

/-- An `UPDATE` statement. -/
def Update.pieces : Update → List Piece
  | ⟨table, assignments, condition, sources, returning, ctes⟩ =>
    withPieces ctes ++ .word .UPDATE :: .gap :: table.pieces
      ++ clause [.SET] (commas (assignmentsPieces assignments))
      ++ listClause [.FROM] (nodesPieces sources)
      ++ optionalClause [.WHERE] ((operand? condition).map Operand.pieces)
      ++ listClause [.RETURNING] (targetsPieces returning)

/-- A `DELETE` statement. -/
def Delete.pieces : Delete → List Piece
  | ⟨table, sources, condition, returning, ctes⟩ =>
    withPieces ctes ++ words [.DELETE, .FROM] ++ .gap :: table.pieces
      ++ listClause [.USING] (nodesPieces sources)
      ++ optionalClause [.WHERE] ((operand? condition).map Operand.pieces)
      ++ listClause [.RETURNING] (targetsPieces returning)

/-- A column of a new table. -/
def ColumnDef.pieces : ColumnDef → List Piece
  | ⟨name, type, constraints, collation⟩ =>
    .name name :: .gap :: type.pieces
      ++ (if collation.isEmpty then [] else clause [.COLLATE] (dotted collation))
      ++ constraintsPieces constraints

/-- Constraints, each with a gap in front. -/
def constraintsPieces : List Constraint → List Piece
  | [] => []
  | c :: cs => .gap :: c.pieces ++ constraintsPieces cs

/-- A constraint of a column or table. -/
def Constraint.pieces : Constraint → List Piece
  | ⟨kind, name, expression, keys, refTable, columns, refColumns, onDelete, onUpdate⟩ =>
    name.elim [] (fun s => [.word .CONSTRAINT, .gap, .name s, .gap])
      ++ match kind with
        | .null => [.word .NULL]
        | .notNull => words [.NOT, .NULL]
        | .default =>
          .word .DEFAULT :: .gap :: (operand? expression).elim [.word .NULL]
            fun e => e.wrapIf (e.level < Level.comparison)
        | .check =>
          .word .CHECK :: .gap :: parens ((operand? expression).elim [.word .TRUE] Operand.pieces)
        | .primary => words [.PRIMARY, .KEY] ++ nameListIfAny [.gap] keys
        | .unique => .word .UNIQUE :: nameListIfAny [.gap] keys
        | .foreign =>
          (if columns.isEmpty then []
            else words [.FOREIGN, .KEY] ++ .gap :: parens (nameList columns) ++ [.gap])
            ++ .word .REFERENCES :: refTable.elim [] (fun t => .gap :: t.pieces)
            ++ nameListIfAny [.gap] refColumns
            ++ suffixIf (onDelete != .noAction) (.ON :: .DELETE :: onDelete.words)
            ++ suffixIf (onUpdate != .noAction) (.ON :: .UPDATE :: onUpdate.words)

/-- A `CREATE INDEX` statement. -/
def CreateIndex.pieces : CreateIndex → List Piece
  | ⟨name, table, method, elements, condition, unique, concurrently, ifNotExists⟩ =>
    .word .CREATE :: .gap :: wordsIf unique [.UNIQUE] ++ .word .INDEX
      :: .gap :: wordsIf concurrently [.CONCURRENTLY]
      ++ name.elim [] (fun s => wordsIf ifNotExists [.IF, .NOT, .EXISTS] ++ [.name s, .gap])
      ++ .word .ON :: .gap :: table.pieces
      ++ optionalClause [.USING] (method.map fun m => [.name m])
      ++ .gap :: parens (commas (elementsPieces elements))
      ++ optionalClause [.WHERE] ((operand? condition).map Operand.pieces)

/-- A `CREATE VIEW` statement. -/
def CreateView.pieces : CreateView → List Piece
  | ⟨view, columns, query, replace⟩ =>
    .word .CREATE :: .gap :: wordsIf replace [.OR, .REPLACE] ++ view.persistence.pieces
      ++ .word .VIEW :: .gap :: view.pieces ++ nameListIfAny [.gap] columns
      ++ clause [.AS] query.pieces

end

/-- A query in terms of its clauses. -/
theorem Select.pieces_eq (s : Select) :
    s.pieces = withPieces s.ctes
      ++ (match s.left, s.right with
        | some l, some r =>
          combinedPieces s.op s.all (parensIf (l.wrapsLeft s.op) l.pieces)
            (parensIf (r.wrapsRight s.op) r.pieces)
        | _, _ =>
          if s.rows.isEmpty then
            .word .SELECT :: distinctPieces (keysPieces s.distinct)
              ++ (if s.targets.isEmpty then [] else .gap :: commas (targetsPieces s.targets))
              ++ listClause [.FROM] (nodesPieces s.sources)
              ++ optionalClause [.WHERE] ((operand? s.condition).map Operand.pieces)
              ++ listClause [.GROUP, .BY] (nodesPieces s.groups)
              ++ optionalClause [.HAVING] ((operand? s.having).map Operand.pieces)
              ++ listClause [.WINDOW] (windowsPieces s.windows)
          else .word .VALUES :: .gap :: commas (rowsPieces s.rows))
      ++ listClause [.ORDER, .BY] (sortKeysPieces s.order)
      ++ limitPieces s.limitStyle (s.limit.any isAllRows) (operand? s.limit) (operand? s.offset)
      ++ s.locks.flatMap (fun l => .gap :: l.pieces) := by
  obtain ⟨distinct, targets, sources, condition, groups, having, windows, rows, order, offset, limit,
    style, locks, ctes, op, all, left, right⟩ := s
  -- the match on the two queries is decided before they are
  cases left <;> cases right <;> rfl

namespace Node

/-! ### Equations of the written forms

One equation for each form, so that a proof about one form does not derive those of
all others. -/

theorem select_pieces (s : Select) : (select s).pieces = s.pieces := rfl

theorem column_pieces (fields : List ColumnField) :
    (column fields).pieces = columnPieces fields := rfl

theorem param_pieces (n : Int) : (param n).pieces = [.mark (.param n)] := rfl

theorem const_pieces (v : Literal) : (const v).pieces = [.literal v] := rfl

theorem operation_pieces (kind : OperationKind) (name : String) (l r : Option Node) :
    (operation kind name l r).pieces
      = operationPieces kind name (operand? l) (rightOperand? kind l.isSome r) := rfl

theorem junction_pieces (op : Junction) (args : List Node) :
    (junction op args).pieces = junctionPieces op (operands args) := rfl

theorem nullTest_pieces (a : Node) (negated : Bool) :
    (nullTest a negated).pieces = (Operand.mk a.level a.pieces).tight Level.is
      ++ suffixWords (if negated then [.IS, .NOT, .NULL] else [.IS, .NULL]) := rfl

theorem truthTest_pieces (a : Node) (truth : Truth) (negated : Bool) :
    (truthTest a truth negated).pieces = (Operand.mk a.level a.pieces).tight Level.is
      ++ suffixWords (if negated then [.IS, .NOT, truth.word] else [.IS, truth.word]) := rfl

theorem call_pieces (c : Call) : (call c).pieces = c.pieces := rfl

theorem namedArg_pieces (name : String) (a : Node) : (namedArg name a).pieces
    = .name name :: .gap :: .mark .equalsGreater :: .gap :: a.pieces := rfl

theorem cast_pieces (a : Node) (t : TypeName) : (cast a t).pieces
    = .word .CAST :: parens (a.pieces ++ clause [.AS] t.pieces) := rfl

theorem collate_pieces (a : Node) (collation : List String) : (collate a collation).pieces
    = (Operand.mk a.level a.pieces).loose Level.collate
      ++ clause [.COLLATE] (dotted collation) := rfl

theorem caseExpr_pieces (o : Option Node) (arms : List CaseArm) (e : Option Node) :
    (caseExpr o arms e).pieces
      = .word .CASE :: (operand? o).elim [] (fun o => .gap :: o.pieces)
        ++ (armsPieces arms).flatMap (fun a => .gap :: a)
        ++ optionalClause [.ELSE] ((operand? e).map Operand.pieces) ++ suffixWords [.END] := rfl

theorem array_pieces (es : List Node) :
    (array es).pieces = .word .ARRAY :: brackets (commas (nodesPieces es)) := rfl

theorem indirection_pieces (a : Node) (steps : List Step) : (indirection a steps).pieces
    = parensIf (!takesSteps a) a.pieces ++ stepsPieces steps := rfl

theorem row_pieces (fs : List Node) (explicit : Bool) : (row fs explicit).pieces
    = (if explicit || fs.length < 2 then [.word .ROW] else []) ++ parens (commas (nodesPieces fs)) :=
  rfl

theorem coalesce_pieces (args : List Node) :
    (coalesce args).pieces = .word .COALESCE :: parens (commas (nodesPieces args)) := rfl

theorem extremum_pieces (op : Extremum) (args : List Node) :
    (extremum op args).pieces = .word op.word :: parens (commas (nodesPieces args)) := rfl

theorem valueFunction_pieces (f : ValueFunction) (precision : Option Int) :
    (valueFunction f precision).pieces
      = .word f.word :: precision.elim [] fun p => parens [.mark (.integer p)] := rfl

theorem table_pieces (t : TableRef) : (table t).pieces = t.pieces := rfl

theorem derivedTable_pieces (t : DerivedTable) : (derivedTable t).pieces = t.pieces := rfl

theorem join_pieces (j : Join) : (join j).pieces = j.pieces := rfl

theorem list_pieces (ns : List Node) : (list ns).pieces = commas (nodesPieces ns) := rfl

end Node

/-- The text of a node. -/
def Node.text (n : Node) : String :=
  Piece.join n.pieces

end SqlSyntax
