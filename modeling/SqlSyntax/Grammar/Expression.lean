import SqlSyntax.Grammar.Primary

/-!
# Expressions

Operands with the operators in front of them, between them and behind them.  An
operator takes a right operand of operators that bind more tightly than itself,
so that equal levels group to the left.

## Main definitions

* `Level.ofInfix?`, `Level.ofSign?` — the levels of tokens as operators.
* `Node.negate` — a minus sign before an operand.
* `operations` — the operators behind a left operand.
* `expressionAbove` — an expression.
-/

namespace SqlSyntax

namespace Level

/-- The level of a token as an operator before its operand. -/
def ofSign? : TokenKind → Option Level
  | .keyword .NOT => some not
  | .minus | .plus => some sign
  | .op _ => some operator
  | _ => none

/-- The level of a token as an operator behind a left operand. -/
def ofInfix? : TokenKind → Option Level
  | .keyword .OR => some or
  | .keyword .AND => some and
  | .keyword .IS | .keyword .ISNULL | .keyword .NOTNULL => some is
  | .eq | .notEq | .lt | .ltEq | .gt | .gtEq => some comparison
  | .keyword .BETWEEN | .keyword .IN | .keyword .LIKE | .keyword .ILIKE | .keyword .SIMILAR
  | .notAhead => some predicate
  | .op _ => some operator
  | .plus | .minus => some sum
  | .star | .slash | .percent => some product
  | .caret => some power
  | .keyword .AT => some timeZone
  | .keyword .COLLATE => some collate
  | .typecast => some cast
  | _ => none

end Level

/-- A minus sign before an operand.  A number changes its sign instead; if it is
too large for an integer and its opposite is not, it becomes one. -/
def Node.negate (arg : Node) : Node :=
  match arg with
  | .const v =>
    match v.negated with
    | some (.float s) =>
      match Int4.ofDecimal? s.toList with
      | some n => Node.integer n
      | none => Node.const (.float s)
    | some v => Node.const v
    | none => Node.prefixed "-" arg
  | _ => Node.prefixed "-" arg

namespace Grammar

open SqlSyntax.Parser

/-! ### Tests behind `IS` -/

/-- The truth value that a keyword stands for. -/
def truthOf? : Keyword → Option Truth
  | .TRUE => some .yes
  | .FALSE => some .no
  | .UNKNOWN => some .unknown
  | _ => none

/-- The comparison behind `IS DISTINCT`. -/
def distinction (negated : Bool) (arg : Node) : Parser Node := do
  expectWord .FROM
  let right ← operand Level.is
  let kind := if negated then .notDistinct else .distinct
  return Node.operation kind "=" (some arg) (some right)

/-- The test behind `IS`. -/
def test (arg : Node) : Parser Node := do
  let negated ← acceptWord .NOT
  match (← kind).keyword? with
  | some .NULL => do
    skip
    return Node.nullTest arg negated
  | some .DISTINCT => do
    skip
    distinction negated arg
  | some w =>
    match truthOf? w with
    | some t => do
      skip
      return Node.truthTest arg t negated
    | none => unexpected .truthTest
  | none => unexpected .truthTest

/-! ### Predicates in words -/

/-- The predicates that may have `NOT` in front. -/
inductive Predicate
  | between | inList | like | ilike | similar
  deriving DecidableEq, Repr

/-- The predicate that a keyword stands for. -/
def Predicate.ofWord? : Keyword → Option Predicate
  | .BETWEEN => some between
  | .IN => some inList
  | .LIKE => some like
  | .ILIKE => some ilike
  | .SIMILAR => some similar
  | _ => none

/-- Whether the bounds of a range may come in any order, in a word that may stand
before them. -/
def symmetric : Parser Bool := do
  if ← acceptWord .SYMMETRIC then return true
  else
    skipWord .ASYMMETRIC
    return false

/-- A range test. -/
def rangeTest (negated symmetric : Bool) (arg low high : Node) : Node :=
  let bounds := some (Node.list [low, high])
  match negated, symmetric with
  | false, false => Node.operation .between "BETWEEN" (some arg) bounds
  | true, false => Node.operation .notBetween "NOT BETWEEN" (some arg) bounds
  | false, true => Node.operation .betweenSymmetric "BETWEEN SYMMETRIC" (some arg) bounds
  | true, true => Node.operation .notBetweenSymmetric "NOT BETWEEN SYMMETRIC" (some arg) bounds

/-- The range behind `BETWEEN`. -/
def between (negated : Bool) (arg : Node) : Parser Node := do
  let anyOrder ← symmetric
  let low ← operand Level.predicate
  expectWord .AND
  return rangeTest negated anyOrder arg low (← operand Level.predicate)

/-- The query or list in the parentheses behind `IN`. -/
def inBody (negated : Bool) (arg : Node) : Parser Node := do
  if startsQuery (← kind) then
    let found := Node.subquery { use := .forAny, test := some arg, query := ← query }
    return if negated then Node.negation found else found
  else
    let op := if negated then "<>" else "="
    return Node.operation .inList op (some arg) (some (Node.list (← expressions)))

/-- A pattern match: its operator, as it is and negated, and the function that
gives a pattern its escape character. -/
structure PatternMatch where
  /-- The kind of the match. -/
  kind : OperationKind
  /-- Its operator. -/
  op : String
  /-- The operator of the negated match. -/
  negatedOp : String
  /-- The function of a pattern and its escape character. -/
  escape : String
  /-- A pattern without an escape character is given to the function too. -/
  always : Bool := false

/-- `LIKE`. -/
def PatternMatch.like : PatternMatch :=
  ⟨.like, "~~", "!~~", "like_escape", false⟩

/-- `ILIKE`. -/
def PatternMatch.ilike : PatternMatch :=
  ⟨.ilike, "~~*", "!~~*", "like_escape", false⟩

/-- `SIMILAR TO`. -/
def PatternMatch.similar : PatternMatch :=
  ⟨.similar, "~", "!~", "similar_to_escape", true⟩

/-- A pattern with its escape character. -/
def PatternMatch.pattern (m : PatternMatch) (pattern : Node) : Option Node → Node
  | some e => Node.call (Call.system m.escape [pattern, e])
  | none => if m.always then Node.call (Call.system m.escape [pattern]) else pattern

/-- The pattern of a match, with an optional escape character. -/
def patternMatch (m : PatternMatch) (negated : Bool) (arg : Node) : Parser Node := do
  let pattern ← operand Level.predicate
  let escape ← after .ESCAPE (operand Level.predicate)
  let op := if negated then m.negatedOp else m.op
  return Node.operation m.kind op (some arg) (some (m.pattern pattern escape))

/-- What follows the word of a predicate. -/
def predicate (negated : Bool) (arg : Node) : Predicate → Parser Node
  | .between => between negated arg
  | .inList => parenthesized (inBody negated arg)
  | .like => patternMatch .like negated arg
  | .ilike => patternMatch .ilike negated arg
  | .similar => do
    expectWord .TO
    patternMatch .similar negated arg

/-- The predicate behind `NOT`. -/
def negatedPredicate (arg : Node) : Parser Node := do
  match (← kind).keyword?.bind Predicate.ofWord? with
  | some p => do
    skip
    predicate true arg p
  | none => misplaced

/-! ### Operators -/

/-- Whether a comparison is with all rows or elements, or with any, as a keyword
tells. -/
def withAll? : TokenKind → Option Bool
  | .keyword .ANY | .keyword .SOME => some false
  | .keyword .ALL => some true
  | _ => none

/-- The query or array in the parentheses of a comparison with all or any. -/
def quantifiedBody (op : String) (all : Bool) (left : Node) : Parser Node := do
  if startsQuery (← kind) then
    let use := if all then .forAll else .forAny
    return Node.subquery { use := use, test := some left, op := some op, query := ← query }
  else
    let kind := if all then .opAll else .opAny
    return Node.operation kind op (some left) (some (← expression))

/-- What follows an operator: a right operand, or what the left one is compared
with all or any of. -/
def binaryOperation (op : String) (level : Level) (left : Node) : Parser Node := do
  match withAll? (← kind) with
  | some all => do
    if ← isBefore .leftParen then
      skip
      parenthesized (quantifiedBody op all left)
    else return Node.binary op left (← operand level)
  | none => return Node.binary op left (← operand level)

/-- The operation of a left operand with the operator `k` of level `level`, which
has been read. -/
def operation (k : TokenKind) (level : Level) (left : Node) : Parser Node := do
  match k with
  | .keyword .OR => return Node.joined .or left (← operand level)
  | .keyword .AND => return Node.joined .and left (← operand level)
  | .keyword .IS => test left
  | .keyword .ISNULL => return Node.nullTest left false
  | .keyword .NOTNULL => return Node.nullTest left true
  | .keyword .AT => do
    expectWord .TIME
    expectWord .ZONE
    return Node.call (Call.system "timezone" [← operand level, left])
  | .keyword .COLLATE => return Node.collate left (← dottedName)
  | .typecast => return Node.cast left (← typeName)
  | .notAhead => negatedPredicate left
  | k =>
    match k.keyword?.bind Predicate.ofWord? with
    | some p => predicate false left p
    | none => binaryOperation (k.operator?.getD "") level left

/-- Whether a token that could be an operator is one: `AT` only before `TIME`. -/
def isOperator (k : TokenKind) : Parser Bool := do
  if k = .keyword .AT then isBefore (.keyword .TIME) else return true

/-- A further operation on a left operand, by an operator that binds more tightly
than `above`. -/
def moreOperations (above : Level) (left : Node) : Parser (Option Node) := do
  let k ← kind
  match Level.ofInfix? k with
  | none => return none
  | some level =>
    if level ≤ above then return none
    else if ← isOperator k then
      skip
      return some (← operation k level left)
    else return none

/-- A left operand with the operators behind it that bind more tightly than
`above`. -/
def operations (above : Level) (left : Node) : Parser Node :=
  iterate (moreOperations above) left

/-- An operator before an operand. -/
def signed (k : TokenKind) (arg : Node) : Node :=
  match k with
  | .keyword _ => Node.negation arg
  | .minus => Node.negate arg
  | k => Node.prefixed (k.operator?.getD "") arg

/-- An operand with the operators in front of it. -/
def leftOperand : Parser Node := do
  let k ← kind
  match Level.ofSign? k with
  | none => primary
  | some level =>
    skip
    return signed k (← operand level)

/-! ### Rules -/

/-- An expression of operators that bind more tightly than `above`. -/
def expressionAbove (above : Level) : Parser Node := do
  operations above (← leftOperand)

end Grammar
end SqlSyntax
