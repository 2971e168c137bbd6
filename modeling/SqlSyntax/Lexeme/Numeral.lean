import SqlSyntax.Number.Digits

/-!
# Numerals

A numeral is an integer in one of four radices or a decimal number with a point
or an exponent.  Single underscores may stand between digits, and one may follow
a radix mark.

## Main definitions

* `digitRun` — how long a run of digits with underscores is.
* `Numeral`, `numeral` — the longest numeral at the start of a text.
-/

namespace SqlSyntax

/-- The length of the longest run of digits at the start of a text.  An
underscore belongs to it between two digits; `inside` says that a digit came
before. -/
def digitRun (radix : Nat) : Bool → List Char → Nat
  | _, [] => 0
  | inside, c :: cs =>
    if isDigitOf radix c then digitRun radix true cs + 1
    else if c = '_' ∧ inside ∧ cs.head?.any (isDigitOf radix) then digitRun radix inside cs + 1
    else 0

/-- The numeral at the start of a text. -/
structure Numeral where
  /-- How many characters it takes. -/
  length : Nat
  /-- Whether it has a point or an exponent. -/
  isFloat : Bool
  deriving DecidableEq, Repr

/-- The radix that a character after a leading zero marks. -/
def markedRadix (c : Char) : Option Nat :=
  if c = 'x' ∨ c = 'X' then some 16
  else if c = 'o' ∨ c = 'O' then some 8
  else if c = 'b' ∨ c = 'B' then some 2
  else none

/-- The length of an integer with a radix mark.  The mark counts only before a
digit, or an underscore and a digit. -/
def markedLength : List Char → Option Nat
  | '0' :: m :: cs =>
    (markedRadix m).bind fun radix =>
      let underscore := if cs.head? = some '_' then 1 else 0
      let n := digitRun radix false (cs.drop underscore)
      if n = 0 then none else some (2 + underscore + n)
  | _ => none

/-- The length of a point and the digits after it.  A point before another point
is no part of a numeral. -/
def fractionLength : List Char → Nat
  | '.' :: cs => if cs.head? = some '.' then 0 else digitRun 10 false cs + 1
  | _ => 0

/-- The length of an exponent: `e`, an optional sign, and digits. -/
def exponentLength : List Char → Nat
  | e :: cs =>
    if e = 'e' ∨ e = 'E' then
      let sign := if cs.head? = some '+' ∨ cs.head? = some '-' then 1 else 0
      let n := digitRun 10 false (cs.drop sign)
      if n = 0 then 0 else 1 + sign + n
    else 0
  | [] => 0

/-- The decimal numeral at the start of a text. -/
def decimalNumeral (cs : List Char) : Numeral :=
  let whole := digitRun 10 false cs
  let fraction := fractionLength (cs.drop whole)
  let exponent := exponentLength (cs.drop (whole + fraction))
  ⟨whole + fraction + exponent, 0 < fraction + exponent⟩

/-- The longest numeral at the start of a text. -/
def numeral (cs : List Char) : Numeral :=
  (markedLength cs).elim (decimalNumeral cs) fun n => ⟨n, false⟩

end SqlSyntax
