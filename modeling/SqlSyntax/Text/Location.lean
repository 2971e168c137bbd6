import SqlSyntax.Search
import SqlSyntax.Text.Bytes

/-!
# Lines and columns

A `Location` names a byte offset of a source text together with its line and its
column, both counted from one; columns count characters.  An offset past the
end, or inside a character, is moved back to the nearest place where a character
starts.

Locations are looked up in a `LineIndex`, which is built in one pass over the
text and serves any number of offsets: the line is found by halving the vector
of line starts, and on a line of ASCII characters the column is a difference of
offsets.

## Main definitions

* `LineIndex.ofText` — the index of a text.
* `LineIndex.locate` — the location of an offset by the index.
* `Location.text` — how a location is written in a message.
-/

namespace SqlSyntax

/-- A place in a source text. -/
structure Location where
  /-- Byte offset from the start of the text. -/
  offset : Nat
  /-- Line number, from one. -/
  line : Nat
  /-- Column number, from one, counted in characters. -/
  column : Nat
  deriving DecidableEq, Repr, Inhabited

/-- How a location is written in a message. -/
def Location.text (l : Location) : String :=
  "line " ++ toString l.line ++ ", column " ++ toString l.column

/-! ### Places where a character starts -/

/-- Whether a character of the text, or nothing more, starts at byte `n`. -/
def isBoundary (cs : List Char) (n : Nat) : Bool :=
  (dropBytes n cs).isSome

/-- The greatest boundary at or before byte `n`. -/
def boundaryBefore (cs : List Char) : Nat → Nat
  | 0 => 0
  | n + 1 => if isBoundary cs (n + 1) then n + 1 else boundaryBefore cs n

/-- The number of characters from byte `m`, a boundary, to byte `n`. -/
def charsBetween (cs : List Char) (m n : Nat) : Nat :=
  match dropBytes m cs with
  | some rest => (takeBytes (n - m) rest).length
  | none => 0

/-! ### The line index -/

/-- The lines of a text, each with the line feed that ends it.  There is none in
the empty text, and none behind a last line feed. -/
def splitLines : List Char → List (List Char)
  | [] => []
  | c :: cs =>
    if c = '\n' then [c] :: splitLines cs
    else match splitLines cs with
      | [] => [[c]]
      | line :: later => (c :: line) :: later

/-- Where each line starts if the first one starts at `start`, and where the last
one ends. -/
def lineBounds (start : Nat) : List (List Char) → List Nat
  | [] => [start]
  | line :: later => start :: lineBounds (start + byteLength line) later

/-- Whether a new line starts at the end of the text. -/
def endsFresh (source : List Char) : Bool :=
  source.isEmpty || source.getLast? == some '\n'

@[simp] theorem length_lineBounds (start : Nat) (lines : List (List Char)) :
    (lineBounds start lines).length = lines.length + 1 := by
  induction lines generalizing start with
  | nil => rfl
  | cons line later ih => simp only [lineBounds, List.length_cons, ih]

theorem eq_nil_of_splitLines {source : List Char} (h : splitLines source = []) : source = [] := by
  cases source with
  | nil => rfl
  | cons c cs =>
    rw [splitLines] at h
    split at h
    · cases h
    · split at h <;> cases h

/-- The lines of a text: where each starts, and whether it is all ASCII. -/
structure LineIndex where
  /-- The text. -/
  source : List Char
  /-- Byte offset of the start of each line. -/
  starts : Array Nat
  /-- Whether each line has ASCII characters only. -/
  ascii : Array Bool
  /-- There is at least one line. -/
  starts_pos : 0 < starts.size
  /-- Each line has both entries. -/
  size_ascii : ascii.size = starts.size
  deriving DecidableEq, Repr

namespace LineIndex

/-- The line index of a text.  The bound behind the last line is the start of one
more line if the text ends there afresh, and no line otherwise. -/
def ofText (source : List Char) : LineIndex :=
  let lines := splitLines source
  let bounds := lineBounds 0 lines
  let ascii := lines.map (List.all · isAscii)
  if h : endsFresh source then
    ⟨source, bounds.toArray, (ascii ++ [true]).toArray, by simp [bounds],
      by simp [bounds, ascii]⟩
  else
    have hlines : lines ≠ [] := fun hnil => h (eq_nil_of_splitLines hnil ▸ rfl)
    ⟨source, bounds.dropLast.toArray, ascii.toArray,
      by simpa [bounds] using List.length_pos_iff.mpr hlines, by simp [bounds, ascii]⟩

/-- The location of a byte offset of the text. -/
def locate (ix : LineIndex) (offset : Nat) : Location :=
  let place := boundaryBefore ix.source (min offset (byteLength ix.source))
  let line := partitionPoint (fun start => start ≤ place) ix.starts 0 ix.starts.size (Nat.le_refl _)
  have hline : line - 1 < ix.starts.size :=
    Nat.lt_of_le_of_lt (Nat.sub_le_sub_right (partitionPoint_le _ _ _ (Nat.zero_le _)) 1)
      (Nat.sub_lt ix.starts_pos Nat.one_pos)
  have hascii : line - 1 < ix.ascii.size := ix.size_ascii ▸ hline
  let start := ix.starts[line - 1]
  let column := if ix.ascii[line - 1] then place - start else charsBetween ix.source start place
  ⟨place, line, column + 1⟩

end LineIndex

/-- The location of a byte offset of `source`. -/
def Location.ofOffset (source : List Char) (offset : Nat) : Location :=
  (LineIndex.ofText source).locate offset

end SqlSyntax
