import SqlSyntax.Grammar.Problem
import SqlSyntax.Lexeme.Basic

/-!
# Passages

A script is cut into statements at its semicolons.  A passage is what belongs to
one statement: a run of lexemes without a semicolon, with what ends it.

## Main definitions

* `Passage` — a run of lexemes with its end.
* `Passage.ofRest` — the passage that starts a list of lexemes.
* `passages` — the passages of a script, one for each statement.
* `Problem.resolve` — a problem with its place in the source text.
-/

namespace SqlSyntax

/-- A run of lexemes in which no statement ends, with its end. -/
structure Passage where
  /-- The number of lexemes before it. -/
  place : Nat
  /-- The run. -/
  run : List Lexeme
  /-- The lexeme that ends it. -/
  stop : Lexeme
  /-- The kind of the token behind that. -/
  beyond : TokenKind
  deriving DecidableEq, Repr

namespace Passage

/-- The passage that starts a list of lexemes with `place` others before it.  A
list without an end gets the lexeme `fin` for one. -/
def ofRest (fin : Lexeme) (place : Nat) (ls : List Lexeme) : Passage :=
  let rest := ls.dropWhile fun l => !l.kind.endsStatement
  ⟨place, ls.takeWhile fun l => !l.kind.endsStatement, rest.headD fin,
    (rest.tail.headD fin).kind⟩

/-- The kinds of the tokens of a passage. -/
def kinds (p : Passage) : List TokenKind :=
  p.run.map Lexeme.kind

/-- The token behind `n` others of a passage; the end is not left. -/
def tokenAt (p : Passage) (n : Nat) : Token :=
  (p.run.getD n p.stop).token

/-- The first token of a passage. -/
def firstToken (p : Passage) : Token :=
  p.tokenAt 0

/-- The last token of a passage. -/
def lastToken (p : Passage) : Token :=
  (p.run.getLastD p.stop).token

end Passage

/-- The passages that start in a list of lexemes, with `place` others before it.
`fresh` says that a statement starts at the next lexeme that does not end one. -/
def passagesFrom (fin : Lexeme) : Nat → Bool → List Lexeme → List Passage
  | _, _, [] => []
  | place, fresh, l :: ls =>
    if l.kind.endsStatement then passagesFrom fin (place + 1) true ls
    else if fresh then
      Passage.ofRest fin place (l :: ls) :: passagesFrom fin (place + 1) false ls
    else passagesFrom fin (place + 1) false ls

/-- The passages of a list of lexemes with `place` others before it, one for each
statement. -/
def passages (fin : Lexeme) (place : Nat) (ls : List Lexeme) : List Passage :=
  passagesFrom fin place true ls

/-- A problem of a statement with its place in the source text. -/
def Problem.resolve (source : List Char) (p : Passage) (q : Problem) : SyntaxError :=
  let first := p.tokenAt q.first
  let span := first.span.merge (p.tokenAt q.last).span
  ⟨q.cause, span, first.kind, span.textIn source⟩

end SqlSyntax
