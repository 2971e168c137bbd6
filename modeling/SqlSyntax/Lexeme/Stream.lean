import SqlSyntax.Lexeme.Resolved

/-!
# Token streams

A stream hands out the tokens of a text one by one and records a diagnostic for
every note as its token is handed out.  The end of the text is handed out again
and again, its notes once.

## Main definitions

* `TokenStream.ofText`, `TokenStream.ofRaw` — the streams of a text.
* `TokenStream.next` — the next token and the stream behind it.
* `TokenStream.tokenize` — all tokens up to the end.
-/

namespace SqlSyntax

/-- The diagnostics for the notes of a lexeme. -/
def Lexeme.diagnostics (ix : LineIndex) (l : Lexeme) : Diagnostics :=
  l.notes.map (Note.diagnostic ix)

/-- The tokens of a text that are still to come. -/
structure TokenStream where
  /-- The text. -/
  source : List Char
  /-- The lines of the text. -/
  lines : LineIndex
  /-- The lexemes to come, the end of the text included. -/
  pending : List Lexeme
  /-- The diagnostics recorded so far. -/
  diagnostics : Diagnostics
  deriving DecidableEq, Repr

namespace TokenStream

/-- The stream of the resolved lexemes of a text. -/
def ofText (d : Dialect) (source : List Char) : TokenStream :=
  ⟨source, LineIndex.ofText source, lexemes d source, []⟩

/-- The stream of the raw lexemes of a text. -/
def ofRaw (d : Dialect) (source : List Char) : TokenStream :=
  ⟨source, LineIndex.ofText source, rawLexemes d source, []⟩

/-- The end of the text, which a stream without lexemes hands out. -/
def endToken (s : TokenStream) : Token :=
  (endLexeme 0 s.source []).token

/-- The next token, and the stream after it. -/
def next (s : TokenStream) : Token × TokenStream :=
  match s.pending with
  | [] => (s.endToken, s)
  | l :: rest =>
    (l.token,
      { s with pending := rest, diagnostics := s.diagnostics ++ l.diagnostics s.lines })

/-- All tokens to come, and all diagnostics.  There is always an end to hand
out. -/
def tokenize (s : TokenStream) : List Token × Diagnostics :=
  let tokens := if s.pending.isEmpty then [s.endToken] else s.pending.map Lexeme.token
  (tokens, s.diagnostics ++ s.pending.flatMap (Lexeme.diagnostics s.lines))

/-- The number of diagnostics recorded when each lexeme has been handed out. -/
def counts (recorded : Nat) : List Lexeme → List Nat
  | [] => []
  | l :: ls => (recorded + l.notes.length) :: counts (recorded + l.notes.length) ls

/-- Records a problem after all others. -/
def report (s : TokenStream) (severity : Severity) (message : String) : TokenStream :=
  { s with diagnostics := s.diagnostics.report severity message none }

/-- The location of a byte of the text. -/
def locate (s : TokenStream) (offset : Nat) : Location :=
  s.lines.locate offset

end TokenStream

end SqlSyntax
