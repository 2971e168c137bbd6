import SqlSyntax.Rendering.Piece
import SqlSyntax.Tree.Basic

/-!
# How the leaves of the tree are written

## Main definitions

* `TableRef.pieces`, `Alias.pieces`, `Locking.pieces` — references to tables.
* `Drop.pieces`, `Truncate.pieces`, `Transaction.pieces` — the statements that
  contain names only.
-/

namespace SqlSyntax

/-! ### Names and clauses -/

/-- A column reference. -/
def columnPieces (fields : List ColumnField) : List Piece :=
  separated [.mark .dot] (fields.map fun
    | .name s => [.name s]
    | .star => [.mark .star])

/-- A name for a table, with the names of its columns. -/
def Alias.pieces (a : Alias) : List Piece :=
  .name a.name :: nameListIfAny [] a.columns

/-- The name for a table item behind the item. -/
def labelPieces (a : Option Alias) : List Piece :=
  optionalClause [.AS] (a.map Alias.pieces)

/-- A table. -/
def TableRef.pieces (t : TableRef) : List Piece :=
  wordsIf t.only [.ONLY] ++ dotted t.names ++ labelPieces t.label

/-- The kind of a new table before the word for it. -/
def Persistence.pieces : Persistence → List Piece
  | permanent => []
  | unlogged => [.word .UNLOGGED, .gap]
  | temporary => [.word .TEMPORARY, .gap]

/-- A sort direction behind a sort key. -/
def SortDirection.pieces : SortDirection → List Piece
  | unspecified => []
  | asc => [.gap, .word .ASC]
  | desc => [.gap, .word .DESC]
  | byOperator op => [.gap, .word .USING, .gap, .operator op]

/-- A locking clause. -/
def Locking.pieces (l : Locking) : List Piece :=
  words l.strength.words ++ listClause [.OF] (l.tables.map TableRef.pieces)
    ++ suffixWords l.wait.words

/-! ### Statements -/

/-- A `DROP` statement. -/
def Drop.pieces (s : Drop) : List Piece :=
  words [.DROP, s.kind.word] ++ .gap :: wordsIf s.concurrently [.CONCURRENTLY]
    ++ wordsIf s.ifExists [.IF, .EXISTS] ++ commas (s.objects.map dotted)
    ++ suffixIf (s.behavior == .cascade) [.CASCADE]

/-- A `TRUNCATE` statement. -/
def Truncate.pieces (s : Truncate) : List Piece :=
  .word .TRUNCATE :: .gap :: commas (s.tables.map TableRef.pieces)
    ++ suffixIf s.restartIdentity [.RESTART, .IDENTITY]
    ++ suffixIf (s.behavior == .cascade) [.CASCADE]

/-- The words that start a transaction statement. -/
def TransactionKind.words : TransactionKind → List Keyword
  | begin => [.BEGIN]
  | start => [.START, .TRANSACTION]
  | commit => [.COMMIT]
  | rollback => [.ROLLBACK]
  | savepoint => [.SAVEPOINT]
  | release => [.RELEASE, .SAVEPOINT]
  | rollbackTo => [.ROLLBACK, .TO, .SAVEPOINT]

/-- Whether a transaction statement names a savepoint. -/
def TransactionKind.namesSavepoint : TransactionKind → Bool
  | savepoint | release | rollbackTo => true
  | _ => false

/-- A transaction statement. -/
def Transaction.pieces (s : Transaction) : List Piece :=
  SqlSyntax.words s.kind.words
    ++ (if s.kind.namesSavepoint then [.gap, .name (s.savepoint.getD "")] else [])
    ++ (if s.modes.isEmpty then []
        else .gap :: commas (s.modes.map fun m => SqlSyntax.words m.words))
    ++ suffixIf s.chain [.AND, .CHAIN]

/-- The name of a configuration parameter, which may have dots. -/
def settingNamePieces (name : String) : List Piece :=
  dotted (name.splitOn ".")

end SqlSyntax
