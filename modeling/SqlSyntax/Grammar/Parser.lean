import SqlSyntax.Grammar.Problem
import SqlSyntax.Tree.Level

/-!
# Parsers

A parser is a decision tree: it asks for the token at hand or the one behind it,
moves on to the next, and ends with a value or a problem.  What nests — an
expression in an expression, a query in a query — is left to a rule of the
grammar by name, so that a parser is a finite description and the depth of
nesting is counted in one place only, where rules are run.

A parser sees one statement: the run of its tokens, the token that ends it and
one token behind that.  There is no way for it to move beyond the run.

## Main definitions

* `Parser` — the decision trees, with their `Monad` instance.
* `Rule`, `Rule.Result` — the rules that parsers refer to, and their values.
* `Boundary`, `Cursor` — a statement and a place in it.
* `Outcome` — a value or a problem, each with the place that was reached.
* `Parser.runWith` — running a parser, given what its rules do.
* `Parser.iterate` — repeating a step as long as it wants.
-/

namespace SqlSyntax

/-! ### Rules -/

/-- What parentheses hold: a query or something else. -/
inductive Enclosed
  | query (s : Select)
  | item (n : Node)

/-- The rules of the grammar that nest. -/
inductive Rule
  /-- An expression of operators that bind more tightly than a level. -/
  | expression (above : Level)
  /-- A query with all its clauses. -/
  | query
  /-- Parentheses in an expression. -/
  | enclosed
  /-- The elements of an array in brackets. -/
  | elements
  /-- Parentheses among the items of `FROM`. -/
  | enclosedSource

/-- The values of a rule. -/
abbrev Rule.Result : Rule → Type
  | expression _ => Node
  | query => Select
  | enclosed => Enclosed
  | elements => List Node
  | enclosedSource => Enclosed

/-! ### Decision trees -/

/-- A parser for values of type `α`. -/
inductive Parser (α : Type) : Type
  /-- The value is known. -/
  | done (value : α)
  /-- The statement does not fit. -/
  | fail (problem : Problem)
  /-- Asks for the current token. -/
  | current (next : TokenKind → Parser α)
  /-- Asks for the token behind the current one. -/
  | peek (next : TokenKind → Parser α)
  /-- Asks for the number of tokens before the current one. -/
  | place (next : Nat → Parser α)
  /-- Asks for the number of tokens from the current one to the end of the
  statement. -/
  | room (next : Nat → Parser α)
  /-- Moves on to the next token. -/
  | advance (next : Parser α)
  /-- Warns of a keyword in place of a name. -/
  | warn (word : Keyword) (next : Parser α)
  /-- Leaves the next tokens to a rule. -/
  | call (rule : Rule) (next : rule.Result → Parser α)

namespace Parser

variable {α β σ : Type}

/-- Continues a parser with its value. -/
def bind : Parser α → (α → Parser β) → Parser β
  | done a, f => f a
  | fail p, _ => fail p
  | current next, f => current fun k => (next k).bind f
  | peek next, f => peek fun k => (next k).bind f
  | place next, f => place fun n => (next n).bind f
  | room next, f => room fun n => (next n).bind f
  | advance next, f => advance (next.bind f)
  | warn word next, f => warn word (next.bind f)
  | call rule next, f => call rule fun v => (next v).bind f

instance : Monad Parser where
  pure := done
  bind := bind

@[simp]
theorem pure_eq (a : α) : (pure a : Parser α) = done a :=
  rfl

@[simp]
theorem bind_eq (p : Parser α) (f : α → Parser β) : p >>= f = p.bind f :=
  rfl

theorem bind_done (p : Parser α) : p.bind done = p := by
  induction p with
  | done | fail => rfl
  | current _ ih | peek _ ih | place _ ih | room _ ih | call _ _ ih => simp [bind, ih]
  | advance _ ih | warn _ _ ih => simp [bind, ih]

theorem bind_bind {γ : Type} (p : Parser α) (f : α → Parser β) (g : β → Parser γ) :
    (p.bind f).bind g = p.bind fun a => (f a).bind g := by
  induction p with
  | done | fail => rfl
  | current _ ih | peek _ ih | place _ ih | room _ ih | call _ _ ih => simp [bind, ih]
  | advance _ ih | warn _ _ ih => simp [bind, ih]

instance : LawfulMonad Parser :=
  LawfulMonad.mk' Parser bind_done (fun _ _ => rfl) bind_bind

/-- The kind of the current token. -/
def kind : Parser TokenKind :=
  current done

/-- The kind of the token behind the current one. -/
def nextKind : Parser TokenKind :=
  peek done

/-- The number of tokens before the current one. -/
def index : Parser Nat :=
  place done

/-- Moves on to the next token. -/
def skip : Parser Unit :=
  advance (done ())

/-- Does a step over and over, at most `n` times, as long as it gives a new
state. -/
def iterateAtMost (step : σ → Parser (Option σ)) : Nat → σ → Parser σ
  | 0, s => done s
  | n + 1, s => do
    match ← step s with
    | none => done s
    | some s => iterateAtMost step n s

/-- Does a step over and over, as long as it gives a new state.  A step that
does so has to move on; then there is room for as many steps as are wanted, the
last of which only finds the end. -/
def iterate (step : σ → Parser (Option σ)) (s : σ) : Parser σ :=
  room fun n => iterateAtMost step (n + 1) s

/-! ### Problems -/

/-- Fails at the current token. -/
def refuse (cause : Cause) : Parser α :=
  place fun n => fail ⟨cause, n, n⟩

/-- Fails because the current token does not fit. -/
def unexpected (expected : Expected) : Parser α :=
  refuse (.unexpected (some expected))

/-- Fails because the current token does not fit, without saying what would. -/
def misplaced : Parser α :=
  refuse (.unexpected none)

/-- Fails because of the tokens from `first` on up to the last one that was
read. -/
def refuseSince (first : Nat) (cause : Cause) : Parser α :=
  place fun n => fail ⟨cause, first, n - 1⟩

end Parser

/-! ### Places in a statement -/

/-- How a statement ends. -/
structure Boundary where
  /-- The token that ends it. -/
  stop : TokenKind
  /-- The token behind that. -/
  beyond : TokenKind

/-- A keyword that stands for a label. -/
structure LabelWarning where
  /-- The keyword. -/
  word : Keyword
  /-- The number of tokens of the statement before it. -/
  place : Nat
  /-- The number of tokens that had been asked for when it was found. -/
  requested : Nat
  deriving DecidableEq, Repr

/-- A place in a statement. -/
structure Cursor where
  /-- The tokens that are left. -/
  run : List TokenKind
  /-- Their number. -/
  room : Nat := run.length
  /-- The number of tokens before them. -/
  place : Nat := 0
  /-- The number of tokens that have been asked for, from the first on. -/
  requested : Nat := 1
  /-- The warnings, latest first. -/
  warnings : List LabelWarning := []
  room_eq : room = run.length := by rfl

namespace Cursor

/-- The current token: the first that is left, or the end of the statement. -/
def current (b : Boundary) (c : Cursor) : TokenKind :=
  c.run.headD b.stop

/-- The token behind the current one. -/
def next (b : Boundary) (c : Cursor) : TokenKind :=
  match c.run with
  | _ :: k :: _ => k
  | [_] => b.stop
  | [] => b.beyond

/-- The place after asking for `n` tokens from this one on. -/
def request (n : Nat) (c : Cursor) : Cursor :=
  { c with requested := max c.requested (c.place + n) }

/-- The place behind the current token; the end of a statement is not left. -/
def advance (c : Cursor) : Cursor :=
  match h : c.run with
  | [] => c
  | _ :: run =>
    request 1 { c with
      run := run
      room := c.room - 1
      place := c.place + 1
      room_eq := by simp [c.room_eq, h] }

/-- The same place with a warning about the current token. -/
def warn (word : Keyword) (c : Cursor) : Cursor :=
  { c with warnings := ⟨word, c.place, c.requested⟩ :: c.warnings }

end Cursor

/-- What comes of a parser, with the place where it stopped. -/
inductive Outcome (α : Type)
  | ok (value : α) (place : Cursor)
  | error (problem : Problem) (place : Cursor)

/-- Runs a parser, with what its rules do. -/
def Parser.runWith {α : Type} (b : Boundary) (rules : (r : Rule) → Cursor → Outcome r.Result) :
    Parser α → Cursor → Outcome α
  | done a, c => .ok a c
  | fail p, c => .error p c
  | current next, c => (next (c.current b)).runWith b rules c
  | peek next, c => (next (c.next b)).runWith b rules (c.request 2)
  | place next, c => (next c.place).runWith b rules c
  | room next, c => (next c.room).runWith b rules c
  | advance next, c => next.runWith b rules c.advance
  | warn word next, c => next.runWith b rules (c.warn word)
  | call rule next, c =>
    match rules rule c with
    | .ok v c => (next v).runWith b rules c
    | .error p c => .error p c

end SqlSyntax
