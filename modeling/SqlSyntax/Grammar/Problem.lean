import SqlSyntax.Token

/-!
# Problems of statements

A statement that does not fit the grammar has one problem: the first.  It is
kept as its cause and the tokens that it is about, counted from the first token
of the statement; the text comes later, from the tokens themselves.

## Main definitions

* `Expected`, `Expected.text` — what would have fitted.
* `Cause`, `Cause.message` — what is wrong, and its wording.
* `Problem` — a cause with its tokens.
* `SyntaxError` — a problem with its place in the source text.
-/

namespace SqlSyntax

/-- What is expected where a token does not fit. -/
inductive Expected
  /-- A token of a certain kind. -/
  | token (k : TokenKind)
  | name
  | expression
  | operator
  | integer
  | string
  /-- A field of a date or time. -/
  | field
  /-- An arm of a `CASE`. -/
  | arm
  /-- What may follow `IS`. -/
  | truthTest
  /-- What a window frame may leave out. -/
  | exclusion
  | query
  | lockStrength
  | join
  | joinCondition
  /-- What may follow `LATERAL`. -/
  | lateralItem
  | objectKind
  | isolationLevel
  | settingValue
  deriving DecidableEq, Repr

/-- The text for what is expected. -/
def Expected.text : Expected → String
  | token k => k.text
  | name => "identifier"
  | expression => "expression"
  | operator => "operator"
  | integer => "integer"
  | string => "string constant"
  | field => "field name"
  | arm => "WHEN"
  | truthTest => "NULL, TRUE, FALSE, UNKNOWN or DISTINCT"
  | exclusion => "CURRENT ROW, GROUP, TIES or NO OTHERS"
  | query => "SELECT or VALUES"
  | lockStrength => "UPDATE, NO KEY UPDATE, SHARE or KEY SHARE"
  | join => "JOIN"
  | joinCondition => "ON or USING"
  | lateralItem => "subquery or function call"
  | objectKind => "object type"
  | isolationLevel => "isolation level"
  | settingValue => "parameter value"

/-- What is wrong with a statement. -/
inductive Cause
  /-- A token does not fit; what would have is known at most places. -/
  | unexpected (expected : Option Expected)
  /-- Expressions and queries are nested too deeply. -/
  | tooDeep
  | repeatedWith
  | repeatedOrder
  | repeatedLimit
  | repeatedOffset
  /-- Two numbers after `LIMIT`. -/
  | limitPair
  /-- `WITH TIES` without an order. -/
  | unorderedTies
  | unequalRows
  /-- A table name of more than three parts. -/
  | tooManyNames (names : List String)
  | precisionTooLow
  | precisionTooHigh
  /-- `ON CONFLICT DO UPDATE` without saying which conflicts. -/
  | conflictTargetMissing
  deriving DecidableEq, Repr

namespace Cause

/-- What would have fitted. -/
def expected : Cause → Option Expected
  | unexpected e => e
  | _ => none

/-- Whether the cause is a token that does not fit. -/
def isUnexpected : Cause → Bool
  | unexpected _ => true
  | _ => false

/-- The message for a token that does not fit. -/
def unexpectedMessage (found : TokenKind) (text : String) : String :=
  if found = .eof then "syntax error at end of input"
  else "syntax error at or near \"" ++ text ++ "\""

/-- The message for a cause, about a token and its text. -/
def message (found : TokenKind) (text : String) : Cause → String
  | unexpected _ => unexpectedMessage found text
  | tooDeep => "stack depth limit exceeded"
  | repeatedWith => "multiple WITH clauses not allowed"
  | repeatedOrder => "multiple ORDER BY clauses not allowed"
  | repeatedLimit => "multiple LIMIT clauses not allowed"
  | repeatedOffset => "multiple OFFSET clauses not allowed"
  | limitPair => "LIMIT #,# syntax is not supported"
  | unorderedTies => "WITH TIES cannot be specified without ORDER BY clause"
  | unequalRows => "VALUES lists must all be the same length"
  | tooManyNames names =>
    "improper qualified name (too many dotted names): " ++ ".".intercalate names
  | precisionTooLow => "precision for type float must be at least 1 bit"
  | precisionTooHigh => "precision for type float must be less than 54 bits"
  | conflictTargetMissing =>
    "ON CONFLICT DO UPDATE requires inference specification or constraint name"

end Cause

/-- The problem of a statement. -/
structure Problem where
  /-- What is wrong. -/
  cause : Cause
  /-- The first token concerned. -/
  first : Nat
  /-- The last token concerned. -/
  last : Nat
  deriving DecidableEq, Repr

/-- The problem of a statement, with its place in the source text. -/
structure SyntaxError where
  /-- What is wrong. -/
  cause : Cause
  /-- Where. -/
  span : Span
  /-- The kind of the first token concerned. -/
  found : TokenKind
  /-- The text under `span`. -/
  near : String
  deriving DecidableEq, Repr

namespace SyntaxError

/-- The message for an error. -/
def message (e : SyntaxError) : String :=
  e.cause.message e.found e.near

/-- The message for an error together with its place. -/
def text (e : SyntaxError) : String :=
  e.message ++ " at position " ++ toString e.span.start ++ ".." ++ toString e.span.stop

/-- The token that did not fit, if that is the cause. -/
def unexpected? (e : SyntaxError) : Option TokenKind :=
  if e.cause.isUnexpected then some e.found else none

end SyntaxError

end SqlSyntax
