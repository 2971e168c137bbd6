/-!
# Gaps between tokens

Between two tokens stand blanks and comments.  A line comment runs from `--` to
the end of the line; a block comment runs from `/*` to `*/`, and block comments
nest.

## Main definitions

* `Gap` — how many characters a gap takes, or where a comment was left open.
* `gapFrom`, `gap` — the gap at the start of a text.
-/

namespace SqlSyntax

/-- A blank between tokens. -/
def isBlank (c : Char) : Bool :=
  c == ' ' || c == '\t' || c == '\n' || c == '\r' || c == '\x0b' || c == '\x0c'

/-- The gap at the start of a text. -/
inductive Gap
  /-- A gap of `n` characters. -/
  | closed (n : Nat)
  /-- After `n` characters starts a block comment that does not end. -/
  | unclosed (n : Nat)
  deriving DecidableEq, Repr

/-- Where the reader of a gap stands. -/
inductive GapState
  /-- Between comments. -/
  | between
  /-- In a line comment. -/
  | line
  /-- In block comments nested to `depth + 1`, of which the outer one started
  after `start` characters of the gap. -/
  | block (depth start : Nat)
  deriving DecidableEq, Repr

/-- The gap in the rest of a text; `n` characters of it have been read. -/
def gapFrom : GapState → Nat → List Char → Gap
  | .block _ start, _, [] => .unclosed start
  | .between, n, [] => .closed n
  | .line, n, [] => .closed n
  | .between, n, '-' :: '-' :: cs => gapFrom .line (n + 2) cs
  | .between, n, '/' :: '*' :: cs => gapFrom (.block 0 n) (n + 2) cs
  | .between, n, c :: cs => if isBlank c then gapFrom .between (n + 1) cs else .closed n
  | .line, n, c :: cs => gapFrom (if c = '\n' then .between else .line) (n + 1) cs
  | .block depth start, n, '/' :: '*' :: cs => gapFrom (.block (depth + 1) start) (n + 2) cs
  | .block 0 _, n, '*' :: '/' :: cs => gapFrom .between (n + 2) cs
  | .block (depth + 1) start, n, '*' :: '/' :: cs => gapFrom (.block depth start) (n + 2) cs
  | .block depth start, n, _ :: cs => gapFrom (.block depth start) (n + 1) cs

/-- The gap at the start of a text. -/
def gap (cs : List Char) : Gap :=
  gapFrom .between 0 cs

end SqlSyntax
