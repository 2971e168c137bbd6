import SqlSyntax.Text.Location

/-!
# Spans

A span is a half-open range of byte offsets.

## Main definitions

* `Span.merge` — the least span that covers two.
* `Span.textIn` — the text of a source under a span.
-/

namespace SqlSyntax

/-- A half-open range of byte offsets of a source text. -/
structure Span where
  /-- Offset of the first byte. -/
  start : Nat
  /-- Offset after the last byte. -/
  stop : Nat
  deriving DecidableEq, Repr, Inhabited

namespace Span

/-- The number of bytes in a span. -/
def length (s : Span) : Nat :=
  s.stop - s.start

/-- Whether a span covers nothing. -/
def isEmpty (s : Span) : Bool :=
  s.start = s.stop

/-- The least span that covers both. -/
def merge (a b : Span) : Span :=
  ⟨min a.start b.start, max a.stop b.stop⟩

/-- The first `n` bytes of a text, if a character ends there. -/
def exactly (n : Nat) (cs : List Char) : Option (List Char) :=
  let taken := takeBytes n cs
  if byteLength taken = n then some taken else none

/-- The characters of `source` under a span; nothing if the span is out of range
or cuts a character. -/
def charsIn (source : List Char) (s : Span) : List Char :=
  if s.start ≤ s.stop then
    ((dropBytes s.start source).bind (exactly s.length)).getD []
  else []

/-- The text of `source` under a span. -/
def textIn (source : List Char) (s : Span) : String :=
  String.ofList (s.charsIn source)

/-- Where a span starts. -/
def locationIn (source : List Char) (s : Span) : Location :=
  Location.ofOffset source s.start

end Span
end SqlSyntax
