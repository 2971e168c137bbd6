import SqlSyntax.Grammar.Parser

/-!
# Words, names and lists

The parts that all productions share: expected and optional tokens, the several
kinds of names, and lists.

## Main definitions

* `accept`, `expect` — an optional token, and one that has to stand.
* `name`, `callName`, `label` — names, by what keywords may stand for them.
* `dottedName`, `tableName` — names with qualifiers.
* `commaList`, `parenthesized` — lists.
-/

namespace SqlSyntax.Grammar

open SqlSyntax.Parser

variable {α : Type}

/-! ### Tokens -/

/-- Whether the current token is `k`. -/
def isAt (k : TokenKind) : Parser Bool := do
  return (← kind) = k

/-- Whether the current token is the keyword `w`. -/
def isAtWord (w : Keyword) : Parser Bool :=
  isAt (.keyword w)

/-- Whether the token behind the current one is `k`. -/
def isBefore (k : TokenKind) : Parser Bool := do
  return (← nextKind) = k

/-- Whether the current token is the keyword `v` and the one behind it the
keyword `w`. -/
def isAtWords (v w : Keyword) : Parser Bool := do
  if ← isAtWord v then isBefore (.keyword w) else return false

/-- Reads the token `k` if it is there. -/
def accept (k : TokenKind) : Parser Bool := do
  if ← isAt k then
    skip
    return true
  else return false

/-- Reads the keyword `w` if it is there. -/
def acceptWord (w : Keyword) : Parser Bool :=
  accept (.keyword w)

/-- Reads a keyword that means nothing, if it is there. -/
def skipWord (w : Keyword) : Parser Unit := do
  let _ ← acceptWord w

/-- Reads the token `k`. -/
def expect (k : TokenKind) : Parser Unit := do
  if ← accept k then return () else unexpected (.token k)

/-- Reads the keyword `w`. -/
def expectWord (w : Keyword) : Parser Unit :=
  expect (.keyword w)

/-- Reads `p` after the keyword `w`, if that is there. -/
def after (w : Keyword) (p : Parser α) : Parser (Option α) := do
  if ← acceptWord w then return some (← p) else return none

/-- Reads a list after the keyword `w`; without the keyword the list is
empty. -/
def listAfter (w : Keyword) (p : Parser (List α)) : Parser (List α) := do
  if ← acceptWord w then p else return []

/-- Reads an integer. -/
def integer : Parser Int := do
  match ← kind with
  | .integer n => do
    skip
    return n
  | _ => unexpected .integer

/-! ### Lists -/

/-- Reads what stands in parentheses. -/
def parenthesized (p : Parser α) : Parser α := do
  expect .leftParen
  let a ← p
  expect .rightParen
  return a

/-- Reads a further item of a list, if the token `mark` is there. -/
def moreItems (mark : TokenKind) (item : Parser α) (items : List α) :
    Parser (Option (List α)) := do
  if ← accept mark then return some ((← item) :: items) else return none

/-- Reads items, each after the token `mark`, behind those that have been read.
They are collected latest first. -/
def itemsAfter (mark : TokenKind) (item : Parser α) (items : List α) : Parser (List α) := do
  return (← iterate (moreItems mark item) items.reverse).reverse

/-- Reads one or more items with commas between them. -/
def commaList (item : Parser α) : Parser (List α) := do
  itemsAfter .comma item [← item]

/-! ### Names -/

/-- The name that a token is, if those keywords are allowed that pass `p`. -/
def nameOf? (p : Keyword → Bool) : TokenKind → Option String
  | .name s => some s
  | .keyword w => if p w then some w.spelling else none
  | _ => none

/-- Whether a token is a column or table name. -/
def isName (k : TokenKind) : Bool :=
  (nameOf? Keyword.isColumnName k).isSome

/-- Whether a token is a function or type name. -/
def isCallName (k : TokenKind) : Bool :=
  (nameOf? Keyword.isTypeName k).isSome

/-- Reads the current token as what it stands for. -/
def readAs (value : Option α) (expected : Expected) : Parser α := do
  match value with
  | some a => do
    skip
    return a
  | none => unexpected expected

/-- A column or table name. -/
def name : Parser String := do
  readAs (nameOf? Keyword.isColumnName (← kind)) .name

/-- A function or type name. -/
def callName : Parser String := do
  readAs (nameOf? Keyword.isTypeName (← kind)) .name

/-- The label that a token is: a name or any keyword, whatever follows it. -/
def labelOf? (k : TokenKind) : Option String :=
  (nameOf? (fun _ => false) k).or (k.spelledKeyword?.map Keyword.spelling)

/-- A label, where every keyword is allowed. -/
def label : Parser String := do
  readAs (labelOf? (← kind)) .name

/-- A label for an output column.  A keyword that is reserved in any way is
allowed with a warning. -/
def columnLabel : Parser String := do
  match (← kind).spelledKeyword? with
  | some w => if w.category = .unreserved then label else .warn w label
  | none => label

/-- A name with labels behind it, each after a dot. -/
def dottedName : Parser (List String) := do
  itemsAfter .dot label [← name]

/-- The table with a dotted name that was read from the token at `first` on. -/
def tableOfNames (first : Nat) (names : List String) : Parser TableRef :=
  match TableRef.ofNames? names with
  | some t => return t
  | none => refuseSince first (.tooManyNames names)

/-- A table name. -/
def tableName : Parser TableRef := do
  let first ← index
  tableOfNames first (← dottedName)

/-- A list of names in parentheses. -/
def nameList : Parser (List String) :=
  parenthesized (commaList name)

/-- A list of names in parentheses, if there is one. -/
def optionalNameList : Parser (List String) := do
  if ← isAt .leftParen then nameList else return []

/-- An optional name for a table, with names for its columns.  Without `AS`, the
name is not `SET`, which starts a clause. -/
def optionalAlias : Parser (Option Alias) := do
  let explicit ← acceptWord .AS
  let k ← kind
  if explicit || (isName k && k != .keyword .SET) then
    let s ← name
    return some { name := s, columns := ← optionalNameList }
  else return none

/-! ### Rules -/

/-- An expression of operators that bind more tightly than `above`. -/
def operand (above : Level) : Parser Node :=
  .call (.expression above) .done

/-- An expression. -/
def expression : Parser Node :=
  operand 0

/-- One or more expressions. -/
def expressions : Parser (List Node) :=
  commaList expression

/-- A query with all its clauses. -/
def query : Parser Select :=
  .call .query .done

/-- Whether a token starts a query. -/
def startsQuery : TokenKind → Bool
  | .keyword .SELECT | .keyword .VALUES | .keyword .WITH => true
  | _ => false

/-- Whether a token continues a query that is complete. -/
def continuesQuery : TokenKind → Bool
  | .keyword .UNION | .keyword .INTERSECT | .keyword .EXCEPT | .keyword .ORDER
  | .keyword .LIMIT | .keyword .OFFSET | .keyword .FETCH | .keyword .FOR => true
  | _ => false

/-- An expression, or the word for the default value of a column. -/
def valueOrDefault : Parser Node := do
  if ← acceptWord .DEFAULT then return Node.default else expression

/-- An optional condition after `WHERE`. -/
def optionalCondition : Parser (Option Node) :=
  after .WHERE expression

end SqlSyntax.Grammar
