import SqlSyntax.Number.Int4
import SqlSyntax.Text.Quoted

/-!
# Literals

The value of a constant.  A number that is no 32-bit integer keeps the text it
was written with; a bit string keeps its digits behind a `b` or `x` that tells
the notation.

## Main definitions

* `Literal`, `Literal.text` — literals and how they are written.
* `Literal.negated` — a number with its sign changed.
-/

namespace SqlSyntax

/-- The value of a constant. -/
inductive Literal
  /-- A string. -/
  | string (text : String)
  /-- A 32-bit integer. -/
  | integer (n : Int)
  /-- Any other number, as written. -/
  | float (text : String)
  /-- A truth value. -/
  | boolean (b : Bool)
  /-- A bit string: `b` or `x`, then the digits. -/
  | bits (text : String)
  /-- The null value. -/
  | null
  deriving DecidableEq, Repr, Inhabited

namespace Literal

/-- The text of a string literal. -/
def asString? : Literal → Option String
  | string s => some s
  | _ => none

/-- Whether a literal is the null value. -/
def isNull : Literal → Bool
  | null => true
  | _ => false

/-- The text of a number with its sign changed. -/
def negatedText (s : String) : String :=
  match s.toList with
  | '-' :: cs => String.ofList cs
  | cs => String.ofList ('-' :: cs)

/-- A number with its sign changed.  The least integer has no opposite that
fits, so its opposite is kept as text. -/
def negated : Literal → Option Literal
  | integer n => some (if n = Int4.least then float (toString (-n)) else integer (-n))
  | float s => some (float (negatedText s))
  | _ => none

/-- How a bit string is written. -/
def bitsText (s : String) : String :=
  match s.toList with
  | 'x' :: cs => "X'" ++ String.ofList cs ++ "'"
  | 'b' :: cs => "B'" ++ String.ofList cs ++ "'"
  | cs => "B'" ++ String.ofList cs ++ "'"

/-- How a literal is written. -/
def text : Literal → String
  | string s => quoteString s
  | integer n => toString n
  | float s => s
  | boolean true => "TRUE"
  | boolean false => "FALSE"
  | bits s => bitsText s
  | null => "NULL"

/-- Whether a literal is written with a minus sign in front. -/
def isNegative : Literal → Bool
  | integer n => n < 0
  | float s => s.toList.head? = some '-'
  | _ => false

end Literal
end SqlSyntax
