import SqlSyntax.Token

/-!
# Pieces of written text

Written SQL is a sequence of pieces: gaps and the tokens between them, each
token with the way it is spelled.

## Main definitions

* `Piece`, `Piece.text` — a piece and its spelling.
* `Piece.join` — the text of a sequence of pieces.
* `words`, `commas`, `parens`, `clause` — the usual ways to put pieces together.
-/

namespace SqlSyntax

/-- A piece of written text. -/
inductive Piece
  /-- A blank. -/
  | gap
  /-- A keyword in upper case. -/
  | word (k : Keyword)
  /-- A keyword in lower case, as type names are written. -/
  | typeWord (k : Keyword)
  /-- A name, quoted as needed. -/
  | name (s : String)
  /-- A literal. -/
  | literal (v : Literal)
  /-- An operator. -/
  | operator (s : String)
  /-- A parameter, a number or a punctuation mark. -/
  | mark (k : TokenKind)
  deriving DecidableEq, Repr, Inhabited

namespace Piece

/-- How a piece is spelled. -/
def text : Piece → String
  | gap => " "
  | word k => k.text
  | typeWord k => k.spelling
  | name s => quoteName s
  | literal v => v.text
  | operator s => s
  | mark k => k.text

/-- The text of a sequence of pieces. -/
def join (ps : List Piece) : String :=
  String.join (ps.map text)

end Piece

/-! ### Sequences of pieces -/

/-- Sequences of pieces with a separator between them. -/
def separated (separator : List Piece) (items : List (List Piece)) : List Piece :=
  separator.intercalate items

/-- Sequences of pieces with gaps between them. -/
def spaced (items : List (List Piece)) : List Piece :=
  separated [.gap] items

/-- Sequences of pieces with commas between them. -/
def commas (items : List (List Piece)) : List Piece :=
  separated [.mark .comma, .gap] items

/-- Keywords with gaps between them. -/
def words (ks : List Keyword) : List Piece :=
  spaced (ks.map fun k => [.word k])

/-- Names with commas between them. -/
def nameList (names : List String) : List Piece :=
  commas (names.map fun s => [.name s])

/-- Names with dots between them. -/
def dotted (names : List String) : List Piece :=
  separated [.mark .dot] (names.map fun s => [.name s])

/-- Pieces between parentheses. -/
def parens (ps : List Piece) : List Piece :=
  .mark .leftParen :: ps ++ [.mark .rightParen]

/-- Pieces between brackets. -/
def brackets (ps : List Piece) : List Piece :=
  .mark .leftBracket :: ps ++ [.mark .rightBracket]

/-- A gap and the keywords after it; nothing if there are none. -/
def suffixWords (ks : List Keyword) : List Piece :=
  if ks.isEmpty then [] else .gap :: words ks

/-- Keywords that are written if a condition holds, with a gap behind. -/
def wordsIf (b : Bool) (ks : List Keyword) : List Piece :=
  if b then words ks ++ [.gap] else []

/-- Keywords that are written if a condition holds, with a gap in front. -/
def suffixIf (b : Bool) (ks : List Keyword) : List Piece :=
  if b then suffixWords ks else []

/-- A clause behind others: a gap, its keywords, and its content. -/
def clause (ks : List Keyword) (ps : List Piece) : List Piece :=
  suffixWords ks ++ .gap :: ps

/-- A clause that is written if there is something to write. -/
def optionalClause (ks : List Keyword) (content : Option (List Piece)) : List Piece :=
  content.elim [] (clause ks)

/-- A clause with a list of items that is written if there are any. -/
def listClause (ks : List Keyword) (items : List (List Piece)) : List Piece :=
  if items.isEmpty then [] else clause ks (commas items)

/-- A list of names in parentheses that is written, with what comes before it,
if there are any. -/
def nameListIfAny (before : List Piece) (names : List String) : List Piece :=
  if names.isEmpty then [] else before ++ parens (nameList names)

end SqlSyntax
