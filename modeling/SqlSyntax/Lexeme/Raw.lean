import SqlSyntax.Lexeme.Basic
import SqlSyntax.Lexeme.Delimited
import SqlSyntax.Lexeme.Gap
import SqlSyntax.Lexeme.Numeral
import SqlSyntax.Lexeme.Operator

/-!
# Raw lexemes

The lexemes of a text, each read without regard to the one after it.  A rule for
a kind of token says how many characters the token takes; the reader moves on by
as many.  A literal without its end takes the rest of the text and leaves the
end of the text as the last lexeme.

## Main definitions

* `Reading` — what a rule makes of the start of a text.
* `readToken` — the rule for the character that a token starts with.
* `rawLexemes` — the lexemes of a text up to its end.
-/

namespace SqlSyntax

/-- What a rule makes of the start of a text. -/
structure Reading where
  /-- The kind of token. -/
  kind : TokenKind
  /-- How many characters it takes. -/
  taken : Nat
  /-- The notes taken. -/
  notes : List Note
  deriving DecidableEq, Repr

/-- A literal without its end: the rest of the text is taken. -/
def unfinished (start : Nat) (problem : LexicalProblem) (cs : List Char)
    (notes : List Note) : Reading :=
  ⟨.eof, cs.length, notes ++ [⟨problem, start⟩]⟩

/-! ### Words and names -/

/-- A word: a keyword, or else a name in lower case. -/
def readWord (d : Dialect) (start : Nat) (cs : List Char) : Reading :=
  let word := cs.takeWhile isNamePart
  match Keyword.lookup word with
  | some k => ⟨.keyword k, word.length, []⟩
  | none =>
    let (name, notes) := limitName d start (lowerCase word)
    ⟨.name name, word.length, notes⟩

/-- A name between double quotes. -/
def readQuotedName (d : Dialect) (start : Nat) (cs : List Char) : Reading :=
  match quoted '"' (cs.drop 1) with
  | none => unfinished start .unclosedName cs []
  | some (body, n) =>
    let empty := if body.isEmpty then [⟨.emptyName, start⟩] else []
    let (name, notes) := limitName d start body
    ⟨.name name, n + 1, empty ++ notes⟩

/-! ### Strings -/

/-- A string constant without escapes; `intro` characters stand before the
body. -/
def readPlainString (start intro : Nat) (cs : List Char) : Reading :=
  match quoted '\'' (cs.drop intro) with
  | none => unfinished start .unclosedString cs []
  | some (body, n) => ⟨.string (String.ofList body), intro + n, []⟩

/-- A string constant with escapes; `intro` characters stand before the body.
With `warn` set, the first escape draws a warning. -/
def readEscapeString (warn : Bool) (start intro : Nat) (cs : List Char) : Reading :=
  let body := escapeBody 0 (cs.drop intro)
  let text := (cs.take (intro + body.taken)).drop intro
  let warning :=
    if warn && text.contains '\\' then
      [⟨.plainEscape, start + byteLength (cs.take intro ++ text.takeWhile (· ≠ '\\'))⟩]
    else []
  let decoded := Escape.assemble body.items
  let notes := warning ++ faultNotes start decoded.faults
  if body.closed then ⟨.string (String.ofList decoded.text), intro + body.taken, notes⟩
  else unfinished start .unclosedString cs notes

/-- A string constant in plain quotes. -/
def readString (d : Dialect) (start : Nat) (cs : List Char) : Reading :=
  if d.standardStrings then readPlainString start 1 cs
  else readEscapeString d.escapeWarning start 1 cs

/-- The note on the first character that is no digit. -/
def digitNotes (start radix : Nat) (problem : Char → LexicalProblem) (body : List Char) :
    List Note :=
  (body.find? fun c => !isDigitOf radix c).elim [] fun c => [⟨problem c, start⟩]

/-- A bit string constant in binary notation. -/
def readBinary (start : Nat) (cs : List Char) : Reading :=
  match quoted '\'' (cs.drop 2) with
  | none => unfinished start .unclosedBinary cs []
  | some (body, n) =>
    ⟨.binary (String.ofList body), n + 2, digitNotes start 2 .badBinaryDigit body⟩

/-- A bit string constant in hexadecimal notation. -/
def readHex (start : Nat) (cs : List Char) : Reading :=
  match quoted '\'' (cs.drop 2) with
  | none => unfinished start .unclosedHex cs []
  | some (body, n) => ⟨.hex (String.ofList body), n + 2, digitNotes start 16 .badHexDigit body⟩

/-- A name with Unicode escapes; the escapes are left as they are. -/
def readEscapedName (start : Nat) (cs : List Char) : Reading :=
  match quoted '"' (cs.drop 3) with
  | none => unfinished start .unclosedName cs []
  | some (body, n) => ⟨.escapedName (String.ofList body), n + 3, []⟩

/-- A string constant with Unicode escapes; the escapes are left as they are. -/
def readEscapedString (d : Dialect) (start : Nat) (cs : List Char) : Reading :=
  match quoted '\'' (cs.drop 3) with
  | none => unfinished start .unclosedString cs []
  | some (body, n) =>
    ⟨.escapedString (String.ofList body), n + 3,
      if d.standardStrings then [] else [⟨.unsafeUnicode, start⟩]⟩

/-! ### Dollars -/

/-- A numbered parameter. -/
def readParam (start : Nat) (cs : List Char) : Reading :=
  let digits := (cs.drop 1).takeWhile Char.isDigit
  let junk := (cs.drop (1 + digits.length)).takeWhile isNamePart
  let taken := 1 + digits.length + junk.length
  let junkNotes :=
    if junk.isEmpty then [] else [⟨.junkAfterParam (String.ofList (cs.take taken)), start⟩]
  match Int4.parse digits with
  | .ok n => ⟨.param n, taken, junkNotes⟩
  | .error _ => ⟨.param 0, taken, ⟨.paramTooLarge, start⟩ :: junkNotes⟩

/-- The delimiter of a dollar-quoted string: two dollar signs, with a word
without dollar signs between them or nothing. -/
def dollarDelimiter (cs : List Char) : Option (List Char) :=
  let tag :=
    if (cs.drop 1).head?.any isNameStart then
      (cs.drop 1).takeWhile fun c => isNamePart c && c != '$'
    else []
  if (cs.drop (1 + tag.length)).head? = some '$' then some ('$' :: tag ++ ['$']) else none

/-- A parameter, a dollar-quoted string, or a dollar sign alone. -/
def readDollar (start : Nat) (cs : List Char) : Reading :=
  if (cs.drop 1).head?.any Char.isDigit then readParam start cs
  else match dollarDelimiter cs with
    | none => ⟨.other '$', 1, []⟩
    | some delimiter =>
      let rest := cs.drop delimiter.length
      match findText delimiter rest with
      | none => unfinished start .unclosedDollar cs []
      | some n =>
        ⟨.string (String.ofList (rest.take n)), delimiter.length + n + delimiter.length, []⟩

/-! ### Numbers and operators -/

/-- A number.  A word that follows without a gap belongs to the token and is
noted, but is no part of the number. -/
def readNumber (start : Nat) (cs : List Char) : Reading :=
  let n := numeral cs
  let text := cs.take n.length
  let junk := (cs.drop n.length).takeWhile isNamePart
  let taken := n.length + junk.length
  let notes :=
    if junk.isEmpty then [] else [⟨.junkAfterNumber (String.ofList (cs.take taken)), start⟩]
  let kind :=
    if n.isFloat then .float (String.ofList text)
    else match Int4.parse text with
      | .ok v => .integer v
      | .error _ => .float (String.ofList text)
  ⟨kind, taken, notes⟩

/-- An operator. -/
def readOperator (cs : List Char) : Reading :=
  let op := operatorChars cs
  ⟨operatorKind (String.ofList op), op.length, []⟩

/-- The token that a single character is. -/
def symbolKind (c : Char) : TokenKind :=
  if c = '.' then .dot
  else if c = ':' then .colon
  else if c = ',' then .comma
  else if c = ';' then .semicolon
  else if c = '(' then .leftParen
  else if c = ')' then .rightParen
  else if c = '[' then .leftBracket
  else if c = ']' then .rightBracket
  else .other c

/-! ### The rules together -/

/-- Whether a character is `lower` in either case. -/
def isLetter (lower c : Char) : Bool :=
  c.toLower == lower

/-- The token at the start of a text that starts with `c`. -/
def readToken (d : Dialect) (start : Nat) (c : Char) (cs : List Char) : Reading :=
  let next := cs.head?
  let text := c :: cs
  if c = '\'' then readString d start text
  else if c = '"' then readQuotedName d start text
  else if c = '$' then readDollar start text
  else if isLetter 'e' c ∧ next = some '\'' then readEscapeString false start 2 text
  else if isLetter 'n' c ∧ next = some '\'' then readPlainString start 2 text
  else if isLetter 'b' c ∧ next = some '\'' then readBinary start text
  else if isLetter 'x' c ∧ next = some '\'' then readHex start text
  else if isLetter 'u' c ∧ next = some '&' ∧ (cs.drop 1).head? = some '"' then
    readEscapedName start text
  else if isLetter 'u' c ∧ next = some '&' ∧ (cs.drop 1).head? = some '\'' then
    readEscapedString d start text
  else if isNameStart c then readWord d start text
  else if c.isDigit ∨ (c = '.' ∧ next.any Char.isDigit) then readNumber start text
  else if c = '.' ∧ next = some '.' then ⟨.dotDot, 2, []⟩
  else if c = ':' ∧ next = some ':' then ⟨.typecast, 2, []⟩
  else if c = ':' ∧ next = some '=' then ⟨.colonEquals, 2, []⟩
  else if isOperatorChar c then readOperator text
  else ⟨symbolKind c, 1, []⟩

/-- The end of the text as a lexeme; the rest `cs` starts at byte `offset`. -/
def endLexeme (offset : Nat) (cs : List Char) (notes : List Note) : Lexeme :=
  let stop := offset + byteLength cs
  ⟨⟨.eof, ⟨stop, stop⟩⟩, notes⟩

/-- The first lexeme of a text that starts at byte `offset`, and how many
characters it takes with the gap before it. -/
def firstLexeme (d : Dialect) (offset : Nat) (cs : List Char) : Lexeme × Nat :=
  match gap cs with
  | .unclosed n =>
    (endLexeme offset cs [⟨.unclosedComment, offset + byteLength (cs.take n)⟩], cs.length)
  | .closed n =>
    match cs.drop n with
    | [] => (endLexeme offset cs [], cs.length)
    | c :: rest =>
      let start := offset + byteLength (cs.take n)
      let r := readToken d start c rest
      if r.kind = .eof then (endLexeme offset cs r.notes, cs.length)
      else
        let stop := start + byteLength ((c :: rest).take r.taken)
        (⟨⟨r.kind, ⟨start, stop⟩⟩, r.notes⟩, n + r.taken)

/-- The lexemes of a text that starts at byte `offset`, if there are at most
`count` before the end. -/
def rawLexemesFrom (d : Dialect) : Nat → Nat → List Char → List Lexeme
  | 0, offset, cs => [endLexeme offset cs []]
  | count + 1, offset, cs =>
    let (l, n) := firstLexeme d offset cs
    if l.kind = .eof then [l]
    else l :: rawLexemesFrom d count (offset + byteLength (cs.take n)) (cs.drop n)

/-- The lexemes of a text, the end of the text included.  There are at most as
many as characters before the end. -/
def rawLexemes (d : Dialect) (source : List Char) : List Lexeme :=
  rawLexemesFrom d (source.length + 1) 0 source

end SqlSyntax
