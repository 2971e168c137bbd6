import SqlSyntax.Diagnostic
import SqlSyntax.Dialect
import SqlSyntax.Grammar.Basic
import SqlSyntax.Grammar.Call
import SqlSyntax.Grammar.Change
import SqlSyntax.Grammar.Control
import SqlSyntax.Grammar.Definition
import SqlSyntax.Grammar.Enclosed
import SqlSyntax.Grammar.Expression
import SqlSyntax.Grammar.Parser
import SqlSyntax.Grammar.Primary
import SqlSyntax.Grammar.Problem
import SqlSyntax.Grammar.Query
import SqlSyntax.Grammar.Source
import SqlSyntax.Grammar.Statement
import SqlSyntax.Grammar.Target
import SqlSyntax.Grammar.TypeName
import SqlSyntax.Keyword.Basic
import SqlSyntax.Keyword.Table
import SqlSyntax.Lexeme.Basic
import SqlSyntax.Lexeme.Delimited
import SqlSyntax.Lexeme.Gap
import SqlSyntax.Lexeme.Numeral
import SqlSyntax.Lexeme.Operator
import SqlSyntax.Lexeme.Raw
import SqlSyntax.Lexeme.Resolved
import SqlSyntax.Lexeme.Stream
import SqlSyntax.Literal
import SqlSyntax.Number.Digits
import SqlSyntax.Number.Int4
import SqlSyntax.Number.Long
import SqlSyntax.Proofs.Grammar.Local
import SqlSyntax.Proofs.Grammar.LocalExpression
import SqlSyntax.Proofs.Grammar.LocalQuery
import SqlSyntax.Proofs.Grammar.LocalStatement
import SqlSyntax.Proofs.Grammar.LocalWords
import SqlSyntax.Proofs.Grammar.Run
import SqlSyntax.Proofs.Lexeme.Append
import SqlSyntax.Proofs.Lexeme.Break
import SqlSyntax.Proofs.Lexeme.Resolving
import SqlSyntax.Proofs.Lexeme.Span
import SqlSyntax.Proofs.Lexeme.Taken
import SqlSyntax.Proofs.Script.Accounting
import SqlSyntax.Proofs.Script.Isolation
import SqlSyntax.Proofs.Script.Slices
import SqlSyntax.Proofs.Script.BareNames
import SqlSyntax.Proofs.Script.Runs
import SqlSyntax.Proofs.Text.Lines
import SqlSyntax.Rendering.Leaf
import SqlSyntax.Rendering.Node
import SqlSyntax.Rendering.Piece
import SqlSyntax.Rendering.TypeSpelling
import SqlSyntax.Script
import SqlSyntax.Script.Passage
import SqlSyntax.Script.RawStatement
import SqlSyntax.Script.Session
import SqlSyntax.Text.Bytes
import SqlSyntax.Text.Escape
import SqlSyntax.Text.Location
import SqlSyntax.Text.Quoted
import SqlSyntax.Text.Span
import SqlSyntax.Text.Utf8
import SqlSyntax.Token
import SqlSyntax.Tree.Basic
import SqlSyntax.Tree.Building
import SqlSyntax.Tree.Children
import SqlSyntax.Tree.Equality
import SqlSyntax.Tree.Level
import SqlSyntax.Tree.Node
import SqlSyntax.Tree.Tag
import SqlSyntax.Tree.Walk
import SqlSyntax.Tree.Weight
import SqlSyntax.Proofs.Expression.Calls
import SqlSyntax.Proofs.Expression.Readback
import SqlSyntax.Proofs.Expression.Steps
import SqlSyntax.Proofs.Lexeme.Skipped
import SqlSyntax.Proofs.Lexeme.Tiling
import SqlSyntax.Proofs.Lexeme.Filter
import SqlSyntax.Proofs.Script.Diagnostics
import SqlSyntax.Proofs.Grammar.Yielding
import SqlSyntax.Proofs.Tree.Everywhere
import SqlSyntax.Proofs.Tree.Shape
import SqlSyntax.Proofs.Grammar.SoundExpression
import SqlSyntax.Proofs.Grammar.SoundQuery
import SqlSyntax.Proofs.Grammar.SoundStatement
import SqlSyntax.Proofs.Script.Shape
import SqlSyntax.Proofs.Expression.Simple
import SqlSyntax.Proofs.Text.Keywords
import SqlSyntax.Proofs.Grammar.PlainOperand
import SqlSyntax.Proofs.Grammar.PlainExpression
import SqlSyntax.Proofs.Grammar.PlainQuery
import SqlSyntax.Proofs.Lexeme.Reread
import SqlSyntax.Proofs.Lexeme.Leaves
import SqlSyntax.Proofs.Lexeme.Choice
import SqlSyntax.Proofs.Lexeme.Spells
import SqlSyntax.Proofs.Text.Utf8
import SqlSyntax.Proofs.Rendering.Quotes
import SqlSyntax.Proofs.Rendering.Numbers
import SqlSyntax.Proofs.Rendering.Written
import SqlSyntax.Proofs.Rendering.Names
import SqlSyntax.Proofs.Rendering.Literals
import SqlSyntax.Proofs.Expression.Written
import SqlSyntax.Proofs.Expression.Selection
import SqlSyntax.Proofs.Script.Readback
import SqlSyntax.Proofs.Script.Parameters
import SqlSyntax.Proofs.Script.Layout
import SqlSyntax.Proofs.Grammar.Moves
import SqlSyntax.Proofs.Grammar.Turns
import SqlSyntax.Proofs.Script.Progress
import SqlSyntax.Proofs.Lexeme.Locality
import SqlSyntax.Proofs.Grammar.Within
import SqlSyntax.Proofs.Tree.Grouping
import SqlSyntax.Proofs.Expression.Chain
import SqlSyntax.Proofs.Lexeme.Settings
import SqlSyntax.Proofs.Script.Settings
import SqlSyntax.Proofs.Grammar.Finding
import SqlSyntax.Proofs.Grammar.Enclosable
import SqlSyntax.Proofs.Grammar.EnclosableWords
import SqlSyntax.Proofs.Grammar.EnclosableExpression
import SqlSyntax.Proofs.Grammar.EnclosableQuery
import SqlSyntax.Proofs.Grammar.Parenthesized
import SqlSyntax.Proofs.Grammar.Surrounded
import SqlSyntax.Proofs.Lexeme.Preceding
import SqlSyntax.Proofs.Script.Single
import SqlSyntax.Proofs.Script.Enclosure
import SqlSyntax.Proofs.Script.Subqueries
import SqlSyntax.Proofs.Tree.Combining
import SqlSyntax.Proofs.Query.Chain
import SqlSyntax.Proofs.Tree.Fitting
import SqlSyntax.Proofs.Grammar.FittingSource
import SqlSyntax.Proofs.Grammar.FittingQuery
import SqlSyntax.Proofs.Script.Fitting
import SqlSyntax.Proofs.Expression.Atoms
import SqlSyntax.Proofs.Query.Clauses
import SqlSyntax.Proofs.Query.Elementary
import SqlSyntax.Proofs.Query.Readback
import SqlSyntax.Proofs.Query.Written
import SqlSyntax.Proofs.Source.Tables
import SqlSyntax.Proofs.Source.Joins
import SqlSyntax.Proofs.Source.Checks
import SqlSyntax.Proofs.Source.Written
import SqlSyntax.Proofs.Script.Queries
import SqlSyntax.Proofs.Script.Joins
import SqlSyntax.Proofs.Number.Digits
import SqlSyntax.Proofs.Number.Int4
import SqlSyntax.Proofs.Text.Escape
import SqlSyntax.Proofs.Text.Unicode
import SqlSyntax.Proofs.Lexeme.EscapeString
import SqlSyntax.Proofs.Number.Long
import SqlSyntax.Proofs.Lexeme.Operators
import SqlSyntax.Proofs.Lexeme.WholeNumbers
import SqlSyntax.Proofs.Lexeme.Comments
import SqlSyntax.Proofs.Lexeme.Dollars
import SqlSyntax.Proofs.Lexeme.Naming
import SqlSyntax.Proofs.Lexeme.NameLimit
import SqlSyntax.Proofs.Grammar.Nesting
import SqlSyntax.Proofs.Script.Calls
import SqlSyntax.Proofs.Lexeme.Words
import SqlSyntax.Proofs.Grammar.PlainStatement
import SqlSyntax.Proofs.Grammar.ReadingStatement
import SqlSyntax.Proofs.Script.Utilities
import SqlSyntax.Proofs.Expression.Signs
import SqlSyntax.Proofs.Script.Signs
