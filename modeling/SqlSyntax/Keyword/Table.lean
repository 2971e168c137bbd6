import SqlSyntax.Keyword.Basic
import SqlSyntax.Search
import SqlSyntax.Text.Bytes

/-!
# The keyword table

Each keyword has a row in the table, and a word is looked up in it without
regard to the case of its letters.  The rows are in alphabetical order, so that a
word is found by halving the table; one that cannot be a keyword is not looked for.

## Main definitions

* `KeywordEntry`, `Keyword.entry`, `Keyword.table` — the rows of the table.
* `Keyword.row?` — the row with a spelling, found by halving.
* `Keyword.lookup` — the keyword that a word spells.
-/

namespace SqlSyntax

/-- A row of the keyword table. -/
structure KeywordEntry where
  /-- The word in lower case. -/
  spelling : String
  /-- The keyword it spells. -/
  keyword : Keyword
  /-- How far it is reserved. -/
  category : KeywordCategory
  /-- Whether its meaning depends on the token after it. -/
  lookahead : Bool
  deriving DecidableEq, Repr, Inhabited

namespace Keyword

/-- The row of a keyword. -/
def entry (k : Keyword) : KeywordEntry :=
  ⟨k.spelling, k, k.category, k.needsLookahead⟩

/-- All rows, in alphabetical order. -/
def table : List KeywordEntry :=
  all.map entry

/-- The length of the longest spelling. -/
def maxLength : Nat := 17

/-- The row whose spelling is `word`. -/
def row? (word : String) : Option KeywordEntry :=
  let rows := table.toArray
  let place := partitionPoint (fun e => e.spelling < word) rows 0 rows.size (Nat.le_refl _)
  rows[place]?.filter (·.spelling == word)

/-- The row whose spelling is `word`, in any case.  Words that are too long or not in
ASCII are no keywords. -/
def lookupEntry (word : List Char) : Option KeywordEntry :=
  if maxLength < byteLength word || !word.all isAscii then none
  else row? (String.ofList (lowerCase word))

/-- The keyword that `word` spells, in any case. -/
def lookup (word : List Char) : Option Keyword :=
  (lookupEntry word).map KeywordEntry.keyword

end Keyword
end SqlSyntax
