import SqlSyntax.Text.Escape

/-!
# Delimited literals

A literal between delimiters ends at the first delimiter that is not itself part
of the body.  In quoted literals a quote written twice stands for one quote; in
escape strings a backslash starts an escape; between dollar delimiters nothing
is special.

## Main definitions

* `quoted` — the body of a quoted literal, after its opening quote.
* `EscapeBody`, `escapeBody` — the items of an escape string, after its opening
  quote.
* `findText` — where a delimiter occurs.
-/

namespace SqlSyntax

/-- The body up to the closing quote and the number of characters up to and
including it; `none` if there is no closing quote. -/
def quoted (q : Char) : List Char → Option (List Char × Nat)
  | [] => none
  | c :: cs =>
    if c = q then
      match cs with
      | [] => some ([], 1)
      | c' :: cs' =>
        if c' = q then (quoted q cs').map fun (body, n) => (q :: body, n + 2)
        else some ([], 1)
    else (quoted q cs).map fun (body, n) => (c :: body, n + 1)

/-! ### Escape strings -/

/-- How many of the first `limit` characters are digits of `radix`, up to the
first that is none. -/
def countDigits (radix limit : Nat) (cs : List Char) : Nat :=
  ((cs.take limit).takeWhile (isDigitOf radix)).length

/-- The item whose value is written in the first `n` characters, as a byte. -/
def byteItem (radix n : Nat) (cs : List Char) : Escape.Item :=
  .byte (UInt8.ofNat (valueOfDigits radix (leadingDigits radix (cs.take n))))

/-- The item of an escape, from the character after the backslash on, and how
many characters it takes. -/
def backslashItem (c : Char) (cs : List Char) : Escape.Item × Nat :=
  if c = 'b' then (.byte 0x08, 1)
  else if c = 'f' then (.byte 0x0C, 1)
  else if c = 'n' then (.byte 0x0A, 1)
  else if c = 'r' then (.byte 0x0D, 1)
  else if c = 't' then (.byte 0x09, 1)
  else if c = 'v' then (.byte 0x0B, 1)
  else if isDigitOf 8 c then
    let n := countDigits 8 3 (c :: cs)
    (byteItem 8 n (c :: cs), n)
  else if c = 'x' ∧ cs.head?.any (isDigitOf 16) then
    let n := countDigits 16 2 cs
    (byteItem 16 n cs, n + 1)
  else if c = 'u' then (fixedDigits 16 4 cs).elim (.malformed, 1) fun n => (.code n, 5)
  else if c = 'U' then (fixedDigits 16 8 cs).elim (.malformed, 1) fun n => (.code n, 9)
  else (.char c, 1)

/-- The body of an escape string. -/
structure EscapeBody where
  /-- The items of the body. -/
  items : List Escape.Item
  /-- How many characters the body and its closing quote take. -/
  taken : Nat
  /-- Whether there is a closing quote. -/
  closed : Bool
  deriving DecidableEq, Repr

/-- A body that starts with one more item. -/
def EscapeBody.cons (item : Escape.Item) (b : EscapeBody) : EscapeBody :=
  { b with items := item :: b.items, taken := b.taken + 1 }

/-- A body that starts with one more character. -/
def EscapeBody.skip (b : EscapeBody) : EscapeBody :=
  { b with taken := b.taken + 1 }

/-- The body of an escape string; `skip` characters belong to an item already
read. -/
def escapeBody : Nat → List Char → EscapeBody
  | _, [] => ⟨[], 0, false⟩
  | skip + 1, _ :: cs => (escapeBody skip cs).skip
  | 0, c :: cs =>
    if c = '\'' then
      if cs.head? = some '\'' then (escapeBody 1 cs).cons (.char '\'') else ⟨[], 1, true⟩
    else if c = '\\' then
      match cs with
      | [] => ⟨[], 1, false⟩
      | e :: es =>
        let (item, n) := backslashItem e es
        (escapeBody n (e :: es)).cons item
    else (escapeBody 0 cs).cons (.char c)

/-! ### Dollar delimiters -/

/-- How many characters of the text stand before the first occurrence of
`needle`. -/
def findText (needle : List Char) : List Char → Option Nat
  | [] => if needle.isEmpty then some 0 else none
  | c :: cs =>
    if needle.isPrefixOf (c :: cs) then some 0 else (findText needle cs).map (· + 1)

end SqlSyntax
