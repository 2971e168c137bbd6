import SqlSyntax.Dialect
import SqlSyntax.Text.Escape
import SqlSyntax.Token

/-!
# Lexemes

A lexeme is a token together with the notes taken while it was read: problems of
the text, each at a byte offset.  Notes do not stop the reading.

## Main definitions

* `LexicalProblem`, `LexicalProblem.message` — the problems and their wording.
* `Note`, `Note.diagnostic` — a problem at an offset, and as a diagnostic.
* `Lexeme` — a token with its notes.
* `isNameStart`, `isNamePart` — the characters of a bare word.
* `limitName` — a name cut to the length that a dialect keeps.
-/

namespace SqlSyntax

/-- A problem of the text found while tokens are read. -/
inductive LexicalProblem
  | unclosedComment
  | unclosedString
  | unclosedName
  | unclosedBinary
  | unclosedHex
  | unclosedDollar
  | emptyName
  /-- A character of a bit string that is no digit of its notation. -/
  | badBinaryDigit (c : Char)
  | badHexDigit (c : Char)
  /-- A Unicode-escaped string while plain strings have escapes. -/
  | unsafeUnicode
  | paramTooLarge
  /-- A parameter or number that runs into a word. -/
  | junkAfterParam (text : String)
  | junkAfterNumber (text : String)
  | escape (fault : Escape.Fault)
  | badEscapeChar
  | escapeCharMissing
  /-- A name cut to the length that is kept. -/
  | nameCut (whole kept : String)
  /-- An escape in a plain string constant. -/
  | plainEscape
  deriving DecidableEq, Repr

namespace LexicalProblem

/-- Problems that leave the text as it is meant are warnings. -/
def severity : LexicalProblem → Severity
  | nameCut _ _ | plainEscape => .warning
  | _ => .error

/-- The message for a problem. -/
def message : LexicalProblem → String
  | unclosedComment => "unterminated /* comment"
  | unclosedString => "unterminated quoted string"
  | unclosedName => "unterminated quoted identifier"
  | unclosedBinary => "unterminated bit string literal"
  | unclosedHex => "unterminated hexadecimal string literal"
  | unclosedDollar => "unterminated dollar-quoted string"
  | emptyName => "zero-length delimited identifier"
  | badBinaryDigit c => "\"" ++ String.singleton c ++ "\" is not a valid binary digit"
  | badHexDigit c => "\"" ++ String.singleton c ++ "\" is not a valid hexadecimal digit"
  | unsafeUnicode => "unsafe use of string constant with Unicode escapes"
  | paramTooLarge => "parameter number too large"
  | junkAfterParam s => "trailing junk after parameter at or near \"" ++ s ++ "\""
  | junkAfterNumber s => "trailing junk after numeric literal at or near \"" ++ s ++ "\""
  | escape f => f.message
  | badEscapeChar => "invalid Unicode escape character"
  | escapeCharMissing => "UESCAPE must be followed by a simple string literal"
  | nameCut whole kept =>
    "identifier \"" ++ whole ++ "\" will be truncated to \"" ++ kept ++ "\""
  | plainEscape =>
    "nonstandard use of \\ in a string literal; use the escape string syntax for backslashes, e.g., E'\\\\'"

end LexicalProblem

/-- A problem at a byte offset of the text. -/
structure Note where
  /-- What is wrong. -/
  problem : LexicalProblem
  /-- Where. -/
  offset : Nat
  deriving DecidableEq, Repr

/-- A note as a diagnostic on the text with the line index `ix`. -/
def Note.diagnostic (ix : LineIndex) (n : Note) : Diagnostic :=
  ⟨n.problem.severity, n.problem.message, some (ix.locate n.offset)⟩

/-- A token with the notes taken while it was read. -/
structure Lexeme where
  /-- The token. -/
  token : Token
  /-- The notes, in order. -/
  notes : List Note
  deriving DecidableEq, Repr

/-- The kind of a lexeme's token. -/
abbrev Lexeme.kind (l : Lexeme) : TokenKind :=
  l.token.kind

/-! ### Words -/

/-- A letter, an underscore, or any character outside ASCII. -/
def isNameStart (c : Char) : Bool :=
  c.isAlpha || c == '_' || !isAscii c

/-- What may follow in a word: also digits and the dollar sign. -/
def isNamePart (c : Char) : Bool :=
  isNameStart c || c.isDigit || c == '$'

/-- A name cut to what the dialect keeps, with a note on what was cut. -/
def limitName (d : Dialect) (start : Nat) (name : List Char) : String × List Note :=
  let whole := String.ofList name
  if byteLength name ≤ d.maxNameLength then (whole, [])
  else
    let kept := String.ofList (takeBytes d.maxNameLength name)
    (kept, [⟨.nameCut whole kept, start⟩])

/-- The notes on the faults of an escaped literal. -/
def faultNotes (start : Nat) (fs : List Escape.Fault) : List Note :=
  fs.map fun f => ⟨.escape f, start⟩

end SqlSyntax
