import SqlSyntax.Diagnostic
import SqlSyntax.Number.Digits

/-!
# Strict conversion to a 32-bit integer

An integer is an optional sign and a magnitude between optional blanks.  The
magnitude has decimal digits, or a `0x`, `0o` or `0b` mark and digits of that
radix; single underscores may separate digits.

## Main definitions

* `Int4.digits` — the digits of a magnitude, if it is well formed.
* `Int4.parse` — the value, or what is wrong with the text.
* `Int4.read` — the value, with the problem recorded and zero in its place.
* `Int4.ofDecimal?` — the value of plain decimal digits.
-/

namespace SqlSyntax
namespace Int4

/-- The least 32-bit integer. -/
def least : Int := -2147483648

/-- The greatest 32-bit integer. -/
def greatest : Int := 2147483647

/-- Whether a value is a 32-bit integer. -/
def inRange (n : Int) : Bool :=
  least ≤ n && n ≤ greatest

theorem inRange_iff {n : Int} : inRange n = true ↔ -2147483648 ≤ n ∧ n ≤ 2147483647 := by
  rw [inRange, Bool.and_eq_true, decide_eq_true_eq, decide_eq_true_eq]
  rfl

/-- What is wrong with the text of an integer. -/
inductive Problem
  /-- It is not the text of an integer. -/
  | malformed
  /-- Its value does not fit 32 bits. -/
  | outOfRange
  deriving DecidableEq, Repr

/-- The message for a problem with `text`. -/
def Problem.message (text : String) : Problem → String
  | .malformed => "invalid input syntax for type integer: \"" ++ text ++ "\""
  | .outOfRange => "value \"" ++ text ++ "\" is out of range for type integer"

/-- Reads digits that single underscores may separate.  `expecting` says that a
digit has to come next: at the start, and after an underscore. -/
def digitsFrom (radix : Nat) (expecting : Bool) : List Char → Option (List Nat)
  | [] => if expecting then none else some []
  | c :: cs =>
    if c = '_' then if expecting then none else digitsFrom radix true cs
    else do
      let d ← digitValue radix c
      let ds ← digitsFrom radix false cs
      pure (d :: ds)

/-- The digits of a magnitude without its radix mark. -/
def digits (radix : Nat) (cs : List Char) : Option (List Nat) :=
  digitsFrom radix true cs

/-- One more than the greatest unsigned 32-bit value, which stands for all that
is larger. -/
def overflow : Nat := 4294967296

/-- Adds a digit to a value, stopping at `overflow`. -/
def step (radix value digit : Nat) : Nat :=
  min (value * radix + digit) overflow

/-- Splits a radix mark off. -/
def splitRadix : List Char → Nat × List Char
  | '0' :: m :: cs =>
    if m = 'x' ∨ m = 'X' then (16, cs)
    else if m = 'o' ∨ m = 'O' then (8, cs)
    else if m = 'b' ∨ m = 'B' then (2, cs)
    else (10, '0' :: m :: cs)
  | cs => (10, cs)

/-- Removes blanks at both ends. -/
def trim (cs : List Char) : List Char :=
  ((cs.dropWhile isAsciiBlank).reverse.dropWhile isAsciiBlank).reverse

/-- The value of the text of an integer. -/
def parse (cs : List Char) : Except Problem Int :=
  let (negative, unsigned) := splitSign (trim cs)
  let (radix, body) := splitRadix unsigned
  match digits radix body with
  | none => .error .malformed
  | some ds =>
    let magnitude := ds.foldl (step radix) 0
    let value : Int := if negative then -magnitude else magnitude
    if inRange value then .ok value else .error .outOfRange

/-- The value of the text of an integer; a problem is recorded as an error and
zero takes its place. -/
def read (text : String) (ds : Diagnostics) : Int × Diagnostics :=
  match parse text.toList with
  | .ok n => (n, ds)
  | .error p => (0, ds.report .error (p.message text) none)

/-- The integer that decimal digits behind an optional sign denote, if it fits 32
bits.  There are no blanks, radix marks or underscores. -/
def ofDecimal? (cs : List Char) : Option Int :=
  let (negative, body) := splitSign cs
  match fixedDigits 10 body.length body with
  | none => none
  | some n =>
    let value : Int := if negative then -n else n
    if !body.isEmpty && inRange value then some value else none

end Int4
end SqlSyntax
