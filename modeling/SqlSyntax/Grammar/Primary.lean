import SqlSyntax.Grammar.Call
import SqlSyntax.Grammar.TypeName

/-!
# Operands

The expressions that are no operator with operands around it: constants, names,
calls, and constructs in words or brackets of their own.

## Main definitions

* `indirection` — subscripts and fields behind a value.
* `named` — what starts with a name: a column, a call or a typed constant.
* `specialCall` — the functions with a syntax of their own.
* `primary` — an operand.
-/

namespace SqlSyntax

/-- The functions written without parentheses. -/
def ValueFunction.all : List ValueFunction :=
  [.currentDate, .currentTime, .currentTimestamp, .localTime, .localTimestamp, .currentRole,
    .currentUser, .user, .sessionUser, .systemUser, .currentCatalog, .currentSchema]

/-- The function without parentheses that a keyword stands for. -/
def ValueFunction.ofWord? (w : Keyword) : Option ValueFunction :=
  all.find? fun f => f.word = w

/-- The constant that a token stands for. -/
def TokenKind.constant? : TokenKind → Option Literal
  | integer n => some (.integer n)
  | float s => some (.float s)
  | string s => some (.string s)
  | binary s => some (.bits ("b" ++ s))
  | hex s => some (.bits ("x" ++ s))
  | _ => none

/-- What parentheses hold, as an operand: a query stands for its only value. -/
def Enclosed.operand : Enclosed → Node
  | query s => Node.subquery { use := .scalar, query := s }
  | item n => n

namespace Grammar

open SqlSyntax.Parser

/-! ### Steps into a value -/

/-- An optional bound, which is missing before the token `stop`. -/
def optionalBound (stop : TokenKind) : Parser (Option Node) := do
  if ← isAt stop then return none else return some (← expression)

/-- What stands in the brackets of a subscript. -/
def subscript : Parser Subscript := do
  let lower ← optionalBound .colon
  if ← accept .colon then
    let upper ← optionalBound .rightBracket
    expect .rightBracket
    return ⟨true, lower, upper⟩
  else
    expect .rightBracket
    return ⟨false, none, lower⟩

/-- A further step into a value, if there is one. -/
def moreSteps (steps : List Step) : Parser (Option (List Step)) := do
  if ← accept .leftBracket then return some (.subscript (← subscript) :: steps)
  else if ← accept .dot then
    if ← accept .star then return some (.star :: steps)
    else return some (.field (← label) :: steps)
  else return none

/-- A value with the steps into it that follow. -/
def indirection (arg : Node) : Parser Node := do
  let steps := (← iterate moreSteps []).reverse
  return if steps.isEmpty then arg else Node.indirection arg steps

/-! ### Constants with a type -/

/-- The string constant behind the name of its type.  The fields of an interval
may follow it. -/
def typedConstant (type : TypeName) : Parser Node := do
  match ← kind with
  | .string s => do
    skip
    if systemType? type.names = some "interval" && type.modifiers.isEmpty then
      return Node.cast (Node.string s) { type with modifiers := ← intervalModifiers }
    else return Node.cast (Node.string s) type
  | _ => unexpected .string

/-- Whether a token behind the word for a type shows that a constant of that type
is meant. -/
def continuesTypedConstant : TokenKind → Bool
  | .string _ | .leftParen | .withAhead | .withoutAhead | .keyword .VARYING | .keyword .CHAR
  | .keyword .CHARACTER => true
  | _ => false

/-- Whether a constant starts with a type whose first word is `w`. -/
def startsTypedConstant (w : Keyword) : Parser Bool := do
  match w with
  | .DOUBLE => isBefore (.keyword .PRECISION)
  | .INT | .INTEGER | .SMALLINT | .BIGINT | .REAL | .FLOAT | .DEC | .DECIMAL | .NUMERIC
  | .BOOLEAN | .BIT | .CHAR | .CHARACTER | .NCHAR | .NATIONAL | .VARCHAR | .TIMESTAMP | .TIME
  | .INTERVAL => return continuesTypedConstant (← nextKind)
  | _ => return false

/-! ### Names -/

/-- A dotted name that may end in a star. -/
structure Path where
  /-- The names, latest first. -/
  names : List String
  /-- It ends in a star. -/
  star : Bool := false

/-- A further part of a dotted name, if there is one. -/
def morePath (p : Path) : Parser (Option Path) := do
  if p.star then return none
  else if ← accept .dot then
    if ← accept .star then return some { p with star := true }
    else return some { p with names := (← label) :: p.names }
  else return none

/-- What starts with the name `first`, which has been read: all columns of a
table, a call, a typed constant or a column. -/
def named (first : String) : Parser Node := do
  let p ← iterate morePath { names := [first] }
  let names := p.names.reverse
  if p.star then return Node.column (names.map ColumnField.name ++ [.star])
  else
    match ← kind with
    | .leftParen => return Node.call (← call names)
    | .string _ => typedConstant (TypeName.named names)
    | _ => indirection (Node.ofNames names)

/-! ### Constructs in words -/

/-- A further arm of a `CASE`, if there is one. -/
def moreArms (arms : List CaseArm) : Parser (Option (List CaseArm)) := do
  if ← acceptWord .WHEN then
    let condition ← expression
    expectWord .THEN
    return some (⟨condition, ← expression⟩ :: arms)
  else return none

/-- The arms of a `CASE`, of which there is at least one. -/
def arms : Parser (List CaseArm) := do
  match (← iterate moreArms []).reverse with
  | [] => unexpected .arm
  | arms => return arms

/-- A `CASE` expression behind its first word. -/
def caseExpression : Parser Node := do
  let operand ← optionalBound (.keyword .WHEN)
  let arms ← arms
  let otherwise ← after .ELSE expression
  expectWord .END
  return Node.caseExpr operand arms otherwise

/-- What stands in the parentheses of a `CAST`. -/
def castBody : Parser Node := do
  let arg ← expression
  expectWord .AS
  return Node.cast arg (← typeName)

/-- An element of an array, which may be an array in brackets alone. -/
def element : Parser Node := do
  if ← isAt .leftBracket then .call .elements fun es => return Node.array es else expression

/-- What stands in the brackets of an array. -/
def elementList : Parser (List Node) := do
  if ← isAt .rightBracket then return [] else commaList element

/-- The elements of an array in brackets. -/
def elements : Parser (List Node) := do
  expect .leftBracket
  let es ← elementList
  expect .rightBracket
  return es

/-- An array behind its first word: a query in parentheses or elements in
brackets. -/
def array : Parser Node := do
  if ← isAt .leftParen then
    return Node.subquery { use := .array, query := ← parenthesized query }
  else return Node.array (← elements)

/-- The fields of a row. -/
def rowFields : Parser (List Node) := do
  if ← isAt .rightParen then return [] else expressions

/-! ### Functions with a syntax of their own -/

/-- The word for a field of a date or time. -/
def fieldOf? : TokenKind → Option String
  | .string s => some s
  | k => nameOf? (fun _ => true) k

/-- The arguments of `EXTRACT`. -/
def extractArgs : Parser (List Node) := do
  let field ← readAs (fieldOf? (← kind)) .field
  expectWord .FROM
  return [Node.string field, ← expression]

/-- The arguments of `POSITION`; what is searched for stands first and is the
second of them. -/
def positionArgs : Parser (List Node) := do
  let part ← operand Level.predicate
  expectWord .IN
  return [← operand Level.predicate, part]

/-- The arguments of `SUBSTRING`; without a start, it is the first character. -/
def substringArgs : Parser (List Node) := do
  let whole ← expression
  if ← acceptWord .FROM then
    let start ← expression
    return whole :: start :: (← after .FOR expression).toList
  else if ← acceptWord .FOR then
    let count ← expression
    return [whole, (← after .FROM expression).getD (Node.integer 1), count]
  else itemsAfter .comma expression [whole]

/-- The function that trims the side that an optional word tells. -/
def trimFunction : Parser String := do
  if ← acceptWord .LEADING then return "ltrim"
  else if ← acceptWord .TRAILING then return "rtrim"
  else
    skipWord .BOTH
    return "btrim"

/-- The arguments of `TRIM`; the characters to remove stand first and are the
last of them. -/
def trimArgs : Parser (List Node) := do
  if ← acceptWord .FROM then expressions
  else
    let first ← expression
    if ← acceptWord .FROM then return (← expressions) ++ [first]
    else itemsAfter .comma expression [first]

/-- The functions with a syntax of their own. -/
inductive SpecialFunction
  | coalesce | greatest | least | nullif | extract | position | substring | trim
  deriving DecidableEq, Repr

/-- The function with a syntax of its own that a keyword stands for. -/
def SpecialFunction.ofWord? : Keyword → Option SpecialFunction
  | .COALESCE => some coalesce
  | .GREATEST => some greatest
  | .LEAST => some least
  | .NULLIF => some nullif
  | .EXTRACT => some extract
  | .POSITION => some position
  | .SUBSTRING => some substring
  | .TRIM => some trim
  | _ => none

/-- What stands in the parentheses of a function with a syntax of its own. -/
def specialBody : SpecialFunction → Parser Node
  | .coalesce => do
    return Node.coalesce (← expressions)
  | .greatest => do
    return Node.extremum .greatest (← expressions)
  | .least => do
    return Node.extremum .least (← expressions)
  | .nullif => do
    let left ← expression
    expect .comma
    return Node.operation .nullIf "=" (some left) (some (← expression))
  | .extract => do
    return Node.call (Call.system "extract" (← extractArgs))
  | .position => do
    return Node.call (Call.system "position" (← positionArgs))
  | .substring => do
    return Node.call (Call.system "substring" (← substringArgs))
  | .trim => do
    let function ← trimFunction
    return Node.call (Call.system function (← trimArgs))

/-- A call of a function with a syntax of its own, behind its name. -/
def specialCall (f : SpecialFunction) : Parser Node :=
  parenthesized (specialBody f)

/-- A function without parentheses, behind its name, with an optional
precision. -/
def valueFunction (f : ValueFunction) : Parser Node := do
  if f.takesPrecision then
    if ← isAt .leftParen then
      return Node.valueFunction f (some (← parenthesized integer))
    else return Node.valueFunction f none
  else return Node.valueFunction f none

/-! ### Operands -/

/-- What starts with the keyword `w`, if that may be a name.  A word that names
functions only has to have parentheses behind it. -/
def namedByWord (w : Keyword) (beforeParen : Bool) : Parser Node := do
  if w.isColumnName || (w.isTypeName && beforeParen) then
    skip
    named w.spelling
  else unexpected .expression

/-- An operand that starts with the keyword `w` and is no constant with a type.
`beforeParen` says that a parenthesis follows. -/
def operandOfWord (w : Keyword) (beforeParen : Bool) : Parser Node := do
  match w with
  | .TRUE => do
    skip
    return Node.const (.boolean true)
  | .FALSE => do
    skip
    return Node.const (.boolean false)
  | .NULL => do
    skip
    return Node.const .null
  | .CASE => do
    skip
    caseExpression
  | .CAST => do
    skip
    parenthesized castBody
  | .EXISTS => do
    skip
    return Node.subquery { use := .existence, query := ← parenthesized query }
  | .ARRAY => do
    skip
    indirection (← array)
  | .ROW => do
    if beforeParen then
      skip
      indirection (Node.row (← parenthesized rowFields) true)
    else namedByWord w beforeParen
  | w => do
    match SpecialFunction.ofWord? w, beforeParen with
    | some f, true => do
      skip
      specialCall f
    | _, _ => namedByWord w beforeParen

/-- An operand that starts with the keyword `w`. -/
def startingWith (w : Keyword) : Parser Node := do
  match ValueFunction.ofWord? w with
  | some f => do
    skip
    valueFunction f
  | none => do
    if ← startsTypedConstant w then typedConstant (← plainType)
    else operandOfWord w (← isBefore .leftParen)

/-- What parentheses hold. -/
def enclosedContent : Parser Enclosed :=
  .call .enclosed .done

/-- An operand. -/
def primary : Parser Node := do
  let k ← kind
  match k, k.constant? with
  | _, some v => do
    skip
    return Node.const v
  | .param n, _ => do
    skip
    indirection (Node.param n)
  | .leftParen, _ => indirection (← enclosedContent).operand
  | .name s, _ => do
    skip
    named s
  | .keyword w, _ => startingWith w
  | _, _ => unexpected .expression

end Grammar
end SqlSyntax
