import SqlSyntax.Text.Bytes

/-!
# UTF-8

A sequence of bytes is cut into pieces: characters, and faults where the bytes
cannot belong to one.  A fault takes as many bytes as could still have begun a
character.  From the pieces follow both the strict reading, which stops at the
first fault, and the lenient one, which puts a replacement character in the
place of each.

## Main definitions

* `Utf8.encode` — the bytes of a text.
* `Utf8.pieces` — characters and faults.
* `Utf8.decode` — the text of valid bytes, or the first fault.
* `Utf8.decodeLenient` — the text with faults replaced.
-/

namespace SqlSyntax
namespace Utf8

/-- The bytes of a text. -/
def encode (cs : List Char) : List UInt8 :=
  cs.flatMap String.utf8EncodeChar

/-- A character of which some bytes have been read. -/
structure Partial where
  /-- How many bytes are still to come. -/
  missing : Nat
  /-- The least value that the next byte may have. -/
  low : Nat
  /-- The greatest value that the next byte may have. -/
  high : Nat
  /-- The bits read so far. -/
  bits : Nat
  /-- How many bytes have been read. -/
  size : Nat
  deriving DecidableEq, Repr

/-- A piece of a byte sequence. -/
inductive Piece
  /-- A character. -/
  | char (c : Char)
  /-- Bytes that begin no character. -/
  | bad (size : Nat)
  /-- The beginning of a character at the end of the bytes. -/
  | cut (size : Nat)
  deriving DecidableEq, Repr

/-- What a byte of `0x80` or more begins.  The second byte of some characters
has a narrower range, which rules out long forms, surrogates and values past the
last code point. -/
def lead (b : Nat) : Option Partial :=
  if 0xC2 ≤ b ∧ b ≤ 0xDF then some ⟨1, 0x80, 0xBF, b - 0xC0, 1⟩
  else if b = 0xE0 then some ⟨2, 0xA0, 0xBF, b - 0xE0, 1⟩
  else if b = 0xED then some ⟨2, 0x80, 0x9F, b - 0xE0, 1⟩
  else if 0xE1 ≤ b ∧ b ≤ 0xEF then some ⟨2, 0x80, 0xBF, b - 0xE0, 1⟩
  else if b = 0xF0 then some ⟨3, 0x90, 0xBF, b - 0xF0, 1⟩
  else if 0xF1 ≤ b ∧ b ≤ 0xF3 then some ⟨3, 0x80, 0xBF, b - 0xF0, 1⟩
  else if b = 0xF4 then some ⟨3, 0x80, 0x8F, b - 0xF0, 1⟩
  else none

/-- Reads a byte between characters. -/
def first (b : Nat) : List Piece × Option Partial :=
  if b < 0x80 then ([.char (Char.ofNat b)], none)
  else match lead b with
    | some p => ([], some p)
    | none => ([.bad 1], none)

/-- Reads a byte inside a character.  A byte that does not fit ends the
character as a fault and is read again as a first byte. -/
def next (p : Partial) (b : Nat) : List Piece × Option Partial :=
  if p.low ≤ b ∧ b ≤ p.high then
    let bits := p.bits * 64 + (b - 0x80)
    if p.missing = 1 then ([.char (Char.ofNat bits)], none)
    else ([], some ⟨p.missing - 1, 0x80, 0xBF, bits, p.size + 1⟩)
  else
    let (ps, q) := first b
    (.bad p.size :: ps, q)

/-- The pieces of the bytes after a character begun. -/
def piecesFrom : Option Partial → List UInt8 → List Piece
  | none, [] => []
  | some p, [] => [.cut p.size]
  | none, b :: bs =>
    let (ps, q) := first b.toNat
    ps ++ piecesFrom q bs
  | some p, b :: bs =>
    let (ps, q) := next p b.toNat
    ps ++ piecesFrom q bs

/-- The pieces of a byte sequence. -/
def pieces (bs : List UInt8) : List Piece :=
  piecesFrom none bs

/-- The first fault of a byte sequence. -/
structure Fault where
  /-- How many bytes before it are valid. -/
  index : Nat
  /-- How many bytes it takes; `none` if the bytes end inside a character. -/
  size : Option Nat
  deriving DecidableEq, Repr

/-- How a fault is described. -/
def Fault.text (f : Fault) : String :=
  match f.size with
  | some n =>
    "invalid utf-8 sequence of " ++ toString n ++ " bytes from index " ++ toString f.index
  | none => "incomplete utf-8 byte sequence from index " ++ toString f.index

/-- The characters of pieces without a fault; `index` bytes come before. -/
def strict (index : Nat) : List Piece → Except Fault (List Char)
  | [] => .ok []
  | .char c :: ps => (strict (index + c.utf8Size) ps).map (c :: ·)
  | .bad n :: _ => .error ⟨index, some n⟩
  | .cut _ :: _ => .error ⟨index, none⟩

/-- The text of valid bytes, or the first fault. -/
def decode (bs : List UInt8) : Except Fault (List Char) :=
  strict 0 (pieces bs)

/-- The replacement character. -/
def replacement : Char := '\uFFFD'

/-- A piece as a character; a fault gives the replacement character. -/
def Piece.toChar : Piece → Char
  | .char c => c
  | .bad _ | .cut _ => replacement

/-- The text of a byte sequence with faults replaced. -/
def decodeLenient (bs : List UInt8) : List Char :=
  (pieces bs).map Piece.toChar

end Utf8
end SqlSyntax
