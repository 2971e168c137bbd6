/-!
# Characters at byte offsets

A source text is a list of characters, but every position in it is an offset
into its UTF-8 form.  This module relates the two: the byte length of a list of
characters, the longest beginning that fits a number of bytes, and what follows
an exact number of bytes.

## Main definitions

* `byteLength cs` — the length of the UTF-8 form of `cs`.
* `takeBytes n cs` — the longest beginning of `cs` of at most `n` bytes.
* `dropBytes n cs` — what follows exactly `n` bytes, if a character ends there.
* `isAscii`, `isAsciiBlank`, `lowerCase` — the classes of ASCII characters.
-/

namespace SqlSyntax

/-- The number of bytes in the UTF-8 form of a list of characters. -/
def byteLength : List Char → Nat
  | [] => 0
  | c :: cs => c.utf8Size + byteLength cs

@[simp] theorem byteLength_nil : byteLength [] = 0 := rfl

@[simp] theorem byteLength_cons (c : Char) (cs : List Char) :
    byteLength (c :: cs) = c.utf8Size + byteLength cs := rfl

@[simp] theorem byteLength_append (a b : List Char) :
    byteLength (a ++ b) = byteLength a + byteLength b := by
  induction a with
  | nil => simp
  | cons c cs ih => simp [ih, Nat.add_assoc]

/-- The longest beginning of the text that takes at most `n` bytes. -/
def takeBytes : Nat → List Char → List Char
  | _, [] => []
  | n, c :: cs => if c.utf8Size ≤ n then c :: takeBytes (n - c.utf8Size) cs else []

/-- What follows exactly `n` bytes of the text; `none` if it is shorter than
that or byte `n` lies inside a character. -/
def dropBytes : Nat → List Char → Option (List Char)
  | 0, cs => some cs
  | _ + 1, [] => none
  | n + 1, c :: cs => if c.utf8Size ≤ n + 1 then dropBytes (n + 1 - c.utf8Size) cs else none

theorem byteLength_takeBytes_le (n : Nat) (cs : List Char) : byteLength (takeBytes n cs) ≤ n := by
  induction cs generalizing n with
  | nil => simp [takeBytes]
  | cons c cs ih =>
    simp only [takeBytes]
    split
    · have := ih (n - c.utf8Size)
      simp only [byteLength_cons]
      omega
    · simp

/-! ### Character classes -/

/-- Whether a character is one of the first 128. -/
def isAscii (c : Char) : Bool :=
  c.toNat < 128

/-- Space, tab, line feed, form feed and carriage return. -/
def isAsciiBlank (c : Char) : Bool :=
  c == ' ' || c == '\t' || c == '\n' || c == '\x0c' || c == '\r'

/-- The text with its letters from A to Z in lower case. -/
def lowerCase (cs : List Char) : List Char :=
  cs.map Char.toLower

end SqlSyntax
