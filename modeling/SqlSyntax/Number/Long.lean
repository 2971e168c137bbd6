import SqlSyntax.Number.Digits
import SqlSyntax.Text.Utf8

/-!
# Lenient conversion to a 64-bit integer

The conversion reads the bytes of a text, as many digits as it can, and never fails:
blanks and a sign may come first, a radix of zero is chosen by the spelling of the
number, and a magnitude beyond 64 bits is clamped to the largest word.

## Main definitions

* `Long.chooseRadix` — the radix that a spelling asks for.
* `Long.Word`, `Long.Word.push` — a word in which digits are gathered.
* `Long.magnitude` — the clamped value of the leading digits.
* `Long.read` — the conversion, as a signed 64-bit value.
-/

namespace SqlSyntax
namespace Long

/-- The largest value of a 64-bit word. -/
def maxWord : Nat :=
  UInt64.size - 1

/-- A hexadecimal number: `0x` in either case and at least one digit. -/
def hasHexMark : List Char → Bool
  | '0' :: x :: d :: _ => (x == 'x' || x == 'X') && isDigitOf 16 d
  | _ => false

/-- The radix to read in and the characters to read, once blanks and sign are
gone.  Radix zero is sixteen after `0x`, eight after a leading zero and ten
otherwise; radix sixteen skips `0x`. -/
def chooseRadix (radix : Nat) (cs : List Char) : Nat × List Char :=
  if hasHexMark cs ∧ (radix = 0 ∨ radix = 16) then (16, cs.drop 2)
  else if radix = 0 then (if cs.head? = some '0' then 8 else 10, cs)
  else (radix, cs)

/-- A word in which the value of digits is gathered. -/
structure Word where
  /-- The value stored so far. -/
  value : Nat
  /-- Whether some value did not fit. -/
  overflowed : Bool
  /-- What is stored fits. -/
  fits : value ≤ maxWord

namespace Word

/-- A word before the first digit. -/
def zero : Word :=
  ⟨0, false, Nat.zero_le _⟩

/-- Adds a digit.  A value that does not fit is not stored, which is remembered;
later digits may still change what is stored. -/
def push (radix : Nat) (w : Word) (digit : Nat) : Word :=
  if h : w.value * radix + digit ≤ maxWord then ⟨w.value * radix + digit, w.overflowed, h⟩
  else { w with overflowed := true }

/-- The value of the digits, the largest word if it did not fit. -/
def clamped (w : Word) : Nat :=
  if w.overflowed then maxWord else w.value

end Word

/-- The value of the leading digits, at most the largest word. -/
def magnitude (radix : Nat) (cs : List Char) : Nat :=
  ((leadingDigits radix cs).foldl (Word.push radix) Word.zero).clamped

/-- Reads blanks, sign, radix mark and digits from the start of the text.  The
magnitude is taken as a 64-bit word; a minus sign negates the word. -/
def readHere (radix : Nat) (cs : List Char) : Int :=
  let (negative, unsigned) := splitSign (cs.dropWhile isAsciiBlank)
  let (radix, digits) := chooseRadix radix unsigned
  let word := BitVec.ofNat 64 (magnitude radix digits)
  (if negative then -word else word).toInt

/-- The bytes of a text, each taken for the character with its number. -/
def bytes (text : List Char) : List Char :=
  (Utf8.encode text).map Char.ofUInt8

/-- Reads a number from byte `offset` on.  An impossible radix and an offset
past the end give zero. -/
def read (text : List Char) (offset radix : Nat) : Int :=
  if radix = 1 ∨ radix > 36 then 0
  else if (bytes text).length < offset then 0
  else readHere radix ((bytes text).drop offset)

end Long
end SqlSyntax
