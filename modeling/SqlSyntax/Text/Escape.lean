import SqlSyntax.Number.Digits
import SqlSyntax.Text.Utf8

/-!
# Escapes

The body of an escaped literal is a sequence of items: characters, single bytes
and code points.  Items are assembled to text: two code points that form a
surrogate pair make one character, and an item that stands for no character is a
fault, in whose place the text has a replacement character.

## Main definitions

* `Escape.Item`, `Escape.atoms` — items, and what they contribute to the text.
* `Escape.assemble` — the text of a sequence of items, with its faults.
* `Escape.unicodeItems`, `Escape.decodeUnicode` — bodies with an escape
  character before four or six hexadecimal digits.
* `Escape.escapeChar` — the characters that may be named as escape character.
-/

namespace SqlSyntax
namespace Escape

/-- What is wrong with an escaped literal. -/
inductive Fault
  /-- Half of a surrogate pair. -/
  | surrogatePair
  /-- A code point that is no character. -/
  | codePoint
  /-- An escape without its digits. -/
  | malformed
  /-- The byte zero. -/
  | nulByte
  /-- Bytes that are no UTF-8. -/
  | bytes
  deriving DecidableEq, Repr

/-- The message for a fault. -/
def Fault.message : Fault → String
  | surrogatePair => "invalid Unicode surrogate pair"
  | codePoint => "invalid Unicode escape value"
  | malformed => "invalid Unicode escape: Unicode escapes must be \\XXXX or \\+XXXXXX"
  | nulByte => "invalid byte sequence for encoding \"UTF8\": 0x00"
  | bytes => "invalid byte sequence for encoding \"UTF8\" in string literal"

/-- An item of the body of an escaped literal. -/
inductive Item
  /-- A character. -/
  | char (c : Char)
  /-- A byte given by its value. -/
  | byte (b : UInt8)
  /-- A code point given by its value. -/
  | code (n : Nat)
  /-- An escape without its digits. -/
  | malformed
  deriving DecidableEq, Repr

/-- What an item contributes: bytes of the text, or a fault. -/
inductive Atom
  /-- Bytes of the text. -/
  | bytes (bs : List UInt8)
  /-- A fault. -/
  | fault (f : Fault)
  deriving DecidableEq, Repr

/-- The first half of a surrogate pair. -/
def isHigh (n : Nat) : Bool :=
  0xD800 ≤ n && n ≤ 0xDBFF

/-- The second half of a surrogate pair. -/
def isLow (n : Nat) : Bool :=
  0xDC00 ≤ n && n ≤ 0xDFFF

/-- The code point that a surrogate pair stands for. -/
def joinPair (high low : Nat) : Nat :=
  0x10000 + (high - 0xD800) * 1024 + (low - 0xDC00)

/-- A code point outside the surrogates, as bytes.  The code point zero is
refused. -/
def codeAtom (n : Nat) : Atom :=
  if n.isValidChar ∧ n ≠ 0 then .bytes (String.utf8EncodeChar (Char.ofNat n))
  else .fault .codePoint

/-- The fault of a first half that was not completed. -/
def unpaired (pending : Option Nat) : List Atom :=
  if pending.isSome then [.fault .surrogatePair] else []

/-- What items contribute to the text; `pending` is the first half of a pair
that came before. -/
def atoms : Option Nat → List Item → List Atom
  | pending, [] => unpaired pending
  | pending, .char c :: us => unpaired pending ++ .bytes (String.utf8EncodeChar c) :: atoms none us
  | pending, .byte b :: us =>
    unpaired pending ++ (if b = 0 then .fault .nulByte else .bytes [b]) :: atoms none us
  | pending, .malformed :: us => unpaired pending ++ .fault .malformed :: atoms none us
  | some high, .code n :: us =>
    if isLow n then codeAtom (joinPair high n) :: atoms none us
    else if isHigh n then .fault .surrogatePair :: atoms (some n) us
    else .fault .surrogatePair :: codeAtom n :: atoms none us
  | none, .code n :: us =>
    if isLow n then .fault .surrogatePair :: atoms none us
    else if isHigh n then atoms (some n) us
    else codeAtom n :: atoms none us

/-- The bytes of an atom; a fault gives the replacement character. -/
def Atom.toBytes : Atom → List UInt8
  | .bytes bs => bs
  | .fault _ => String.utf8EncodeChar Utf8.replacement

/-- The fault of an atom. -/
def Atom.fault? : Atom → Option Fault
  | .bytes _ => none
  | .fault f => some f

/-- The text of an escaped literal and the faults found in it, in order. -/
structure Decoded where
  /-- The text, with a replacement character for each fault. -/
  text : List Char
  /-- The faults. -/
  faults : List Fault
  deriving DecidableEq, Repr

/-- The text of a sequence of items.  Bytes that together are no UTF-8 are one
more fault. -/
def assemble (us : List Item) : Decoded :=
  let as := atoms none us
  let bytes := as.flatMap Atom.toBytes
  let faults := as.filterMap Atom.fault?
  match Utf8.decode bytes with
  | .ok cs => ⟨cs, faults⟩
  | .error _ => ⟨Utf8.decodeLenient bytes, faults ++ [.bytes]⟩

/-! ### Unicode escapes -/

/-- The item after an escape character, and how many characters it takes: a
second escape character, four hexadecimal digits, or a plus and six of them. -/
def unicodeItem (escape : Char) (cs : List Char) : Item × Nat :=
  if cs.head? = some escape then (.char escape, 1)
  else if cs.head? = some '+' then
    (fixedDigits 16 6 (cs.drop 1)).elim (.malformed, 0) fun n => (.code n, 7)
  else (fixedDigits 16 4 cs).elim (.malformed, 0) fun n => (.code n, 4)

/-- The items of a body; `skip` characters belong to an item already read. -/
def unicodeItems (escape : Char) : Nat → List Char → List Item
  | _, [] => []
  | skip + 1, _ :: cs => unicodeItems escape skip cs
  | 0, c :: cs =>
    if c = escape then
      let (u, n) := unicodeItem escape cs
      u :: unicodeItems escape n cs
    else .char c :: unicodeItems escape 0 cs

/-- The text of a body with Unicode escapes. -/
def decodeUnicode (escape : Char) (body : List Char) : Decoded :=
  assemble (unicodeItems escape 0 body)

/-- The white space of Unicode. -/
def isWhiteSpace (c : Char) : Bool :=
  let n := c.toNat
  (9 ≤ n && n ≤ 13) || n == 0x20 || n == 0x85 || n == 0xA0 || n == 0x1680
    || (0x2000 ≤ n && n ≤ 0x200A) || n == 0x2028 || n == 0x2029 || n == 0x202F
    || n == 0x205F || n == 0x3000

/-- Whether a character can be named as escape character: no hexadecimal digit,
plus, quote or white space. -/
def mayEscape (c : Char) : Bool :=
  !(isDigitOf 16 c || c == '+' || c == '\'' || c == '"' || isWhiteSpace c)

/-- The escape character that a text names: its only character. -/
def escapeChar : List Char → Option Char
  | [c] => if mayEscape c then some c else none
  | _ => none

end Escape
end SqlSyntax
