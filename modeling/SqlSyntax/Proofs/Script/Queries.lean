import SqlSyntax.Proofs.Query.Written
import SqlSyntax.Proofs.Script.Fitting
import SqlSyntax.Proofs.Source.Checks

/-!
# Combined queries of a script are written with the right parentheses

What is written for a query has parentheses of its own: those that were read are gone, and those
around operands with clauses are new.  The query fits in the levels that were there for the
script, so it is read back from its text.

## Main results

* `parse_text_of_elementary` — **combined queries are read back**, with all their clauses.
-/

namespace SqlSyntax

open Grammar

variable {source : List Char} {s : Select}

/-- **Queries that are combined from selections and rows of constants and columns are read back**
from what they are written as, with the common table expressions in front of them and the
clauses behind them. -/
theorem parse_text_of_elementary (hclean : (parse .postgres source).isClean = true)
    (hmem : .select s ∈ (parse .postgres source).statements.map RawStatement.node)
    (h : s.Elementary) :
    (parse .postgres (Node.select s).text.toList).IsOnly (.select s) := by
  obtain ⟨hfits, hone, hsound⟩ := parse_fits hclean hmem
  exact parse_text_of_readsBack (h.written hfits hsound) (h.readsBack hfits hsound)
    fun hs => h.readsBack (hone hs) hsound

/-- Both operands of `UNION` have clauses of their own, and the parentheses around `INTERSECT` are
gone. -/
theorem parse_text_of_elementary_mixed :
    let source := "WITH a AS (VALUES (1) LIMIT ALL) (SELECT 2 ORDER BY 1) UNION ALL ".toList
      ++ "((SELECT 3 INTERSECT VALUES (4)) OFFSET 5) ORDER BY 1 FETCH FIRST 6 ROWS WITH TIES".toList
    ∃ s, .select s ∈ (parse .postgres source).statements.map RawStatement.node ∧
      s.isOfConstants 3 = true ∧ (parse .postgres (Node.select s).text.toList).IsOnly (.select s) := by
  intro source
  obtain ⟨hclean, hread⟩ : (parse .postgres source).isClean = true ∧
      ((parse .postgres source).statements.head?.map RawStatement.node).any
        (Node.isQueryWith (Select.isOfConstants 3)) = true := by
    decide +kernel
  obtain ⟨s, hmem, htest⟩ := exists_query_of_isQueryWith hread
  exact ⟨s, hmem, htest,
    parse_text_of_elementary hclean hmem (Select.elementary_of_isOfConstants htest)⟩

end SqlSyntax
