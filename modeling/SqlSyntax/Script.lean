import SqlSyntax.Script.RawStatement
import SqlSyntax.Script.Session
import SqlSyntax.Text.Utf8

/-!
# Scripts

A script is a text of statements with semicolons between them.  Each statement is
read on its own: one that does not fit the grammar is reported and left out, and
the others are read as if it were not there.

## Main definitions

* `parse` — the statements of a script, with all diagnostics.
* `parseBytes` — the statements of a script that is given in bytes.
* `Session.parse` — the statements that are left in a session.
* `ParseResult` — what they give.
-/

namespace SqlSyntax

/-- What a script holds. -/
structure ParseResult where
  /-- All statements fit the grammar. -/
  success : Bool
  /-- The statements that do, in order. -/
  statements : List RawStatement
  /-- Problems of the text and of the statements, in the order in which they were
  found. -/
  diagnostics : Diagnostics

namespace ParseResult

/-- The errors, in order. -/
def errors (r : ParseResult) : Diagnostics :=
  r.diagnostics.filter Diagnostic.isError

/-- The warnings, in order. -/
def warnings (r : ParseResult) : Diagnostics :=
  r.diagnostics.filter Diagnostic.isWarning

/-- Whether there is no error at all. -/
def isClean (r : ParseResult) : Bool :=
  r.success && !r.diagnostics.hasError

end ParseResult

namespace Grammar

open SqlSyntax.Parser

/-- A statement with nothing behind it. -/
def wholeStatement : Parser Node := do
  let n ← statement
  if (← kind).endsStatement then return n else misplaced

end Grammar

namespace Session

/-- A statement that takes up a whole passage. -/
def rawStatement (p : Passage) (n : Node) : RawStatement :=
  let start := p.firstToken.span.start
  ⟨n, start, p.lastToken.span.stop - start⟩

/-- The statement of a passage, tried as a whole. -/
def attemptWhole (s : Session) (p : Passage) : Attempt RawStatement :=
  let a := s.attempt Grammar.wholeStatement p
  { a with result := a.result.map (rawStatement p) }

/-- What the grammar finds in an attempt: its warnings and its problem. -/
def Attempt.allEvents {α : Type} (s : Session) (a : Attempt α) : List Event :=
  match a.result with
  | .ok _ => a.events
  | .error e =>
    a.events ++ [⟨a.requested, ⟨.error, e.message, some (s.lines.locate e.span.start)⟩⟩]

/-- The statement of an attempt that did not fail. -/
def Attempt.value? {α : Type} (a : Attempt α) : Option α :=
  a.result.toOption

/-- The attempts at all statements that are left in a session. -/
def attempts (s : Session) : List (Attempt RawStatement) :=
  (passages s.fin s.place (s.lexemes.drop s.place)).map s.attemptWhole

/-- The result of attempts at all statements that are left in a session. -/
def resultOf (s : Session) (as : List (Attempt RawStatement)) : ParseResult where
  success := as.all fun a => a.value?.isSome
  statements := as.filterMap Attempt.value?
  diagnostics :=
    s.before ++ weave s.lines 0 s.lexemes (s.events ++ as.flatMap (Attempt.allEvents s))

/-- All statements that are left in a session. -/
def parse (s : Session) : ParseResult :=
  s.resultOf s.attempts

end Session

/-- The statements of a script. -/
def parse (d : Dialect) (source : List Char) : ParseResult :=
  (Session.ofText d source).parse

/-- The message for bytes that are no text. -/
def encodingMessage (f : Utf8.Fault) : String :=
  "invalid byte sequence for encoding \"UTF8\": " ++ f.text

/-- The statements of a script that is given in bytes, or why they are no text. -/
def parseBytes (d : Dialect) (bytes : List UInt8) : Except Utf8.Fault ParseResult :=
  (Utf8.decode bytes).map (parse d)

end SqlSyntax
