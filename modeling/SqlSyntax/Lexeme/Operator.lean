import SqlSyntax.Token

/-!
# Operators

An operator is a run of operator characters that stops before a comment.  It may
end in a plus or minus only if it contains a character that occurs in no
operator of the standard; otherwise these signs belong to what follows.

## Main definitions

* `isOperatorChar`, `keepsSign` — the characters of operators.
* `operatorChars` — the operator at the start of a text.
* `operatorKind` — the kind of token that an operator is.
-/

namespace SqlSyntax

/-- The characters of operators. -/
def isOperatorChar (c : Char) : Bool :=
  "~!@#^&|`?+-*/%<>=".toList.contains c

/-- The characters that let an operator end in a sign. -/
def keepsSign (c : Char) : Bool :=
  "~!@#^&|`?".toList.contains c

/-- Whether a comment starts here. -/
def startsComment : List Char → Bool
  | '/' :: '*' :: _ => true
  | '-' :: '-' :: _ => true
  | _ => false

/-- The operator characters up to the first comment. -/
def operatorRun : List Char → List Char
  | [] => []
  | c :: cs =>
    if isOperatorChar c && !startsComment (c :: cs) then c :: operatorRun cs else []

/-- Whether a character is a sign. -/
def isSign (c : Char) : Bool :=
  c == '+' || c == '-'

/-- A run of operator characters without the signs at its end, but never
empty. -/
def dropSigns (run : List Char) : List Char :=
  let kept := (run.reverse.dropWhile isSign).reverse
  if kept.isEmpty then run.take 1 else kept

/-- The operator at the start of a text. -/
def operatorChars (cs : List Char) : List Char :=
  let run := operatorRun cs
  if run.any keepsSign then run else dropSigns run

/-- The kind of token that an operator is. -/
def operatorKind : String → TokenKind
  | "+" => .plus
  | "-" => .minus
  | "*" => .star
  | "/" => .slash
  | "%" => .percent
  | "^" => .caret
  | "=" => .eq
  | "<" => .lt
  | ">" => .gt
  | "<=" => .ltEq
  | ">=" => .gtEq
  | "<>" => .notEq
  | "!=" => .notEq
  | "=>" => .equalsGreater
  | s => .op s

end SqlSyntax
