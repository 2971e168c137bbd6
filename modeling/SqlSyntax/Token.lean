import SqlSyntax.Literal
import SqlSyntax.Text.Span

/-!
# Tokens

A token is a kind with the span it was read from.  Two kinds, the bodies of
Unicode-escaped names and strings, occur only before keywords and escapes are
resolved; the kinds `notAhead` to `withoutAhead` only after.

## Main definitions

* `TokenKind`, `Token` — tokens.
* `TokenKind.operator?` — the operator that a token spells.
* `TokenKind.text` — how a token is named in messages.
* `Token.value?` — the literal that a token carries.
-/

namespace SqlSyntax

/-- The kind of a token, with its value where it has one. -/
inductive TokenKind
  /-- A name: a word in lower case, or the text of a delimited name. -/
  | name (s : String)
  /-- A string constant with its escapes resolved. -/
  | string (s : String)
  /-- An integer constant. -/
  | integer (n : Int)
  /-- Any other number, as written. -/
  | float (s : String)
  /-- The digits of a bit string constant. -/
  | binary (s : String)
  /-- The digits of a hexadecimal bit string constant. -/
  | hex (s : String)
  /-- A numbered parameter. -/
  | param (n : Int)
  /-- The body of a Unicode-escaped name. -/
  | escapedName (s : String)
  /-- The body of a Unicode-escaped string constant. -/
  | escapedString (s : String)
  /-- A keyword. -/
  | keyword (k : Keyword)
  /-- `NOT` before `BETWEEN`, `IN`, `LIKE`, `ILIKE` or `SIMILAR`. -/
  | notAhead
  /-- `NULLS` before `FIRST` or `LAST`. -/
  | nullsAhead
  /-- `WITH` before `TIME` or `ORDINALITY`. -/
  | withAhead
  /-- `WITHOUT` before `TIME`. -/
  | withoutAhead
  /-- An operator without a kind of its own. -/
  | op (s : String)
  | plus | minus | star | slash | percent | caret
  | eq | lt | gt | ltEq | gtEq | notEq
  | typecast | dotDot | colonEquals | equalsGreater
  | leftParen | rightParen | leftBracket | rightBracket
  | comma | semicolon | dot | colon
  /-- A character that starts no token. -/
  | other (c : Char)
  /-- The end of the text. -/
  | eof
  deriving DecidableEq, Repr, Inhabited

namespace TokenKind

/-- The operator that a token spells. -/
def operator? : TokenKind → Option String
  | op s => some s
  | plus => some "+"
  | minus => some "-"
  | star => some "*"
  | slash => some "/"
  | percent => some "%"
  | caret => some "^"
  | eq => some "="
  | lt => some "<"
  | gt => some ">"
  | ltEq => some "<="
  | gtEq => some ">="
  | notEq => some "<>"
  | _ => none

/-- The keyword that a token is. -/
def keyword? : TokenKind → Option Keyword
  | keyword k => some k
  | _ => none

/-- The keyword that a token spells, whatever follows it. -/
def spelledKeyword? : TokenKind → Option Keyword
  | keyword k => some k
  | notAhead => some .NOT
  | nullsAhead => some .NULLS
  | withAhead => some .WITH
  | withoutAhead => some .WITHOUT
  | _ => none

/-- How a token is named in a message. -/
def text : TokenKind → String
  | name s | escapedName s => "identifier \"" ++ s ++ "\""
  | string _ | escapedString _ => "string constant"
  | integer n => toString n
  | float s => s
  | binary s => "B'" ++ s ++ "'"
  | hex s => "X'" ++ s ++ "'"
  | param n => "$" ++ toString n
  | keyword k => k.text
  | notAhead => "NOT"
  | nullsAhead => "NULLS"
  | withAhead => "WITH"
  | withoutAhead => "WITHOUT"
  | typecast => "::"
  | dotDot => ".."
  | colonEquals => ":="
  | equalsGreater => "=>"
  | leftParen => "("
  | rightParen => ")"
  | leftBracket => "["
  | rightBracket => "]"
  | comma => ","
  | semicolon => ";"
  | dot => "."
  | colon => ":"
  | other c => String.singleton c
  | eof => "end of input"
  | k => k.operator?.getD ""

/-- The literal that a token carries; names, keywords and operators carry their
spelling. -/
def value? : TokenKind → Option Literal
  | name s | string s => some (.string s)
  | integer n | param n => some (.integer n)
  | float s => some (.float s)
  | binary s => some (.bits ("b" ++ s))
  | hex s => some (.bits ("x" ++ s))
  | keyword k => some (.string k.spelling)
  | op s => some (.string s)
  | _ => none

/-- Whether a token ends a statement: a semicolon or the end of the text. -/
def endsStatement : TokenKind → Bool
  | semicolon | eof => true
  | _ => false

end TokenKind

/-- A token with its place in the source text. -/
structure Token where
  /-- What the token is. -/
  kind : TokenKind
  /-- Where it was read. -/
  span : Span
  deriving DecidableEq, Repr, Inhabited

/-- Whether a token is the end of the text. -/
def Token.isEof (t : Token) : Bool :=
  t.kind = .eof

end SqlSyntax
