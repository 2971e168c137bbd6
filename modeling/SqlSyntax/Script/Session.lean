import SqlSyntax.Grammar.Statement
import SqlSyntax.Lexeme.Stream
import SqlSyntax.Script.Passage

/-!
# Sessions

A session reads the statements of a script one after the other.  Its place moves
on as statements are read; after a problem it stays where that was found.

Diagnostics come from two sides: notes on lexemes, when they are asked for the
first time, and events of the grammar.  An event therefore remembers how many
lexemes had been asked for, and the two are put together at the end.

## Main definitions

* `Event`, `weave` — events of the grammar among the notes on lexemes.
* `Session.ofText`, `Session.ofStream` — the session at the start of a script.
* `Session.attempt` — a parser tried at a passage.
* `Session.next` — the next statement.
-/

namespace SqlSyntax

/-! ### Events -/

/-- A diagnostic of the grammar. -/
structure Event where
  /-- The number of lexemes that had been asked for before it. -/
  requested : Nat
  /-- The diagnostic. -/
  diagnostic : Diagnostic
  deriving DecidableEq, Repr

/-- The notes on lexemes with events among them.  `n` lexemes come before; each
event comes before the notes on the first lexeme that had not been asked for. -/
def weave (ix : LineIndex) : Nat → List Lexeme → List Event → Diagnostics
  | _, [], es => es.map Event.diagnostic
  | n, l :: ls, es =>
    (es.takeWhile (·.requested ≤ n)).map Event.diagnostic ++ l.diagnostics ix
      ++ weave ix (n + 1) ls (es.dropWhile (·.requested ≤ n))

/-- The message for a keyword that stands for a label. -/
def LabelWarning.message (w : LabelWarning) : String :=
  "keyword \"" ++ w.word.spelling ++ "\" used as a column label"

/-! ### Sessions -/

/-- A script that is being read. -/
structure Session where
  /-- The text. -/
  source : List Char
  /-- The lines of the text. -/
  lines : LineIndex
  /-- The lexemes of the script. -/
  lexemes : List Lexeme
  /-- The diagnostics from before the script. -/
  before : Diagnostics := []
  /-- The number of lexemes that have been read. -/
  place : Nat := 0
  /-- The number of lexemes that have been asked for. -/
  requested : Nat := 1
  /-- What the grammar has found, in order. -/
  events : List Event := []
  deriving DecidableEq, Repr

namespace Session

/-- The session of what is still to come in a stream. -/
def ofStream (s : TokenStream) : Session where
  source := s.source
  lines := s.lines
  lexemes := s.pending
  before := s.diagnostics

/-- The session at the start of a text. -/
def ofText (d : Dialect) (source : List Char) : Session :=
  ofStream (TokenStream.ofText d source)

/-- The end of the text, for scripts without lexemes. -/
def fin (s : Session) : Lexeme :=
  endLexeme 0 s.source []

/-- A warning of the grammar at a passage. -/
def warningEvent (s : Session) (p : Passage) (w : LabelWarning) : Event :=
  ⟨p.place + w.requested,
    ⟨.warning, w.message, some (s.lines.locate (p.tokenAt w.place).span.start)⟩⟩

/-- What comes of a parser at a passage. -/
structure Attempt (α : Type) where
  /-- The value or the problem. -/
  result : Except SyntaxError α
  /-- The number of lexemes that have been read. -/
  place : Nat
  /-- The number of lexemes that have been asked for. -/
  requested : Nat
  /-- The warnings, in order. -/
  events : List Event

/-- The result of an outcome at a passage. -/
def outcomeResult {α : Type} (s : Session) (p : Passage) : Outcome α → Except SyntaxError α
  | .ok a _ => .ok a
  | .error q _ => .error (q.resolve s.source p)

/-- The place that an outcome reached. -/
def outcomePlace {α : Type} : Outcome α → Cursor
  | .ok _ c | .error _ c => c

/-- Tries a parser at a passage. -/
def attempt {α : Type} (s : Session) (q : Parser α) (p : Passage) : Attempt α :=
  let start : Cursor := { run := p.kinds, requested := max 1 (s.requested - p.place) }
  let outcome := q.run ⟨p.stop.kind, p.beyond⟩ start
  let c := outcomePlace outcome
  { result := outcomeResult s p outcome
    place := p.place + c.place
    requested := p.place + c.requested
    events := c.warnings.reverse.map (s.warningEvent p) }

/-- The next statement, and the session behind it or at its problem. -/
def next (s : Session) : Except SyntaxError Node × Session :=
  let a := s.attempt Grammar.statement (Passage.ofRest s.fin s.place (s.lexemes.drop s.place))
  (a.result, { s with
    place := a.place
    requested := a.requested
    events := s.events ++ a.events })

end Session

end SqlSyntax
