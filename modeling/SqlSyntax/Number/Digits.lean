import SqlSyntax.Text.Bytes

/-!
# Digits

The letters of either case continue the decimal digits, so that a radix of up to
thirty-six can be written.

## Main definitions

* `digitOf`, `digitValue` — the value of a character as a digit.
* `valueOfDigits` — the value of a sequence of digits.
* `splitSign` — an optional sign before a number.
-/

namespace SqlSyntax

/-- The value of a character as a digit: decimal digits first, then letters of
either case from ten on. -/
def digitOf (c : Char) : Option Nat :=
  if '0' ≤ c ∧ c ≤ '9' then some (c.toNat - '0'.toNat)
  else if 'a' ≤ c ∧ c ≤ 'z' then some (c.toNat - 'a'.toNat + 10)
  else if 'A' ≤ c ∧ c ≤ 'Z' then some (c.toNat - 'A'.toNat + 10)
  else none

/-- The value of a character as a digit of `radix`. -/
def digitValue (radix : Nat) (c : Char) : Option Nat :=
  (digitOf c).filter (· < radix)

/-- Whether a character is a digit of `radix`. -/
def isDigitOf (radix : Nat) (c : Char) : Bool :=
  (digitValue radix c).isSome

theorem lt_of_digitValue {radix d : Nat} {c : Char} (h : digitValue radix c = some d) :
    d < radix := by
  obtain ⟨_, h⟩ := Option.filter_eq_some_iff.mp h
  exact of_decide_eq_true h

/-- The value of a sequence of digits, most significant first. -/
def valueOfDigits (radix : Nat) (ds : List Nat) : Nat :=
  ds.foldl (fun v d => v * radix + d) 0

/-- The digits at the start of the text, as values. -/
def leadingDigits (radix : Nat) : List Char → List Nat
  | [] => []
  | c :: cs =>
    match digitValue radix c with
    | some d => d :: leadingDigits radix cs
    | none => []

/-- The value of the first `n` characters, if there are as many and all are
digits of `radix`. -/
def fixedDigits (radix n : Nat) (cs : List Char) : Option Nat :=
  let ds := leadingDigits radix (cs.take n)
  if ds.length = n then some (valueOfDigits radix ds) else none

/-- Splits an optional sign off; `true` stands for minus. -/
def splitSign : List Char → Bool × List Char
  | '-' :: cs => (true, cs)
  | '+' :: cs => (false, cs)
  | cs => (false, cs)

end SqlSyntax
