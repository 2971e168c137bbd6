import SqlSyntax.Proofs.Grammar.ReadingStatement
import SqlSyntax.Proofs.Script.Fitting

/-!
# Statements of words and names are read back

The statements about transactions, and those that remove or empty objects, have no expressions
in them.  In a script without errors they are as they can be read, so each is read back from
what it is written as, and there is nothing to say about it.

## Main results

* `parse_text_of_utility` — **these statements are read back from their text.**
-/

namespace SqlSyntax

open Grammar

variable {source : List Char} {u : Utility}

/-- **Statements about transactions, and those that remove or empty objects, are read back** from
what they are written as, whatever their names are and whichever words were left out. -/
theorem parse_text_of_utility (hclean : (parse .postgres source).isClean = true)
    (hmem : u.node ∈ (parse .postgres source).statements.map RawStatement.node) :
    (parse .postgres u.node.text.toList).IsOnly u.node := by
  obtain ⟨r, hr, hnode⟩ := List.mem_map.mp hmem
  have hutility : r.node.UtilityRead :=
    Session.forall_statements (s := Session.ofText .postgres source) body_plain
      (wholeStatement_yields statement_utilityRead)
      (fits_of_mem_passages (isRead_of_isClean hclean) ⟨trivial, nofun⟩) r hr
  have hread : u.IsRead := hutility u hnode
  have hspells := hread.written [] [] partsOff_nil (spells_nil _)
  rw [List.append_nil, List.append_nil, ← toList_join] at hspells
  exact parse_of_within hspells hread.reads

/-- The statement of words and names that a node is. -/
def Utility.ofNode? : Node → Option Utility
  | .transaction s => some (.transaction s)
  | .drop s => some (.drop s)
  | .truncate s => some (.truncate s)
  | _ => none

theorem Utility.eq_of_ofNode? {n : Node} (h : ofNode? n = some u) : n = u.node := by
  unfold ofNode? at h
  split at h <;> cases h <;> rfl

theorem Utility.mem_of_ofNode? {rs : List RawStatement}
    (h : some u ∈ rs.map fun r => ofNode? r.node) : u.node ∈ rs.map RawStatement.node := by
  obtain ⟨r, hr, hnode⟩ := List.mem_map.mp h
  exact List.mem_map.mpr ⟨r, hr, eq_of_ofNode? hnode⟩

/-- Names that are spelled like the words around them, with words and commas that are not written
again. -/
theorem parse_text_of_utility_words :
    let source := ("DROP INDEX CONCURRENTLY IF EXISTS if.exists, cascade.table, \"ONLY\" CASCADE;"
      ++ "TRUNCATE TABLE restart *, ONLY continue CONTINUE IDENTITY RESTRICT;"
      ++ "BEGIN WORK READ ONLY ISOLATION LEVEL READ COMMITTED, NOT DEFERRABLE;"
      ++ "ROLLBACK TRANSACTION TO SAVEPOINT savepoint; RELEASE work; END AND NO CHAIN").toList
    (parse .postgres source).isClean = true ∧
      ∀ u ∈ [
          Utility.drop
            ⟨.index, [["if", "exists"], ["cascade", "table"], ["ONLY"]], .cascade, true, true⟩,
          .truncate
            ⟨[{ name := "restart" }, { name := "continue", only := true }], false, .restrict⟩,
          .transaction
            { kind := .begin, modes := [.readOnly, .isolation .readCommitted, .notDeferrable] },
          .transaction { kind := .rollbackTo, savepoint := some "savepoint" },
          .transaction { kind := .release, savepoint := some "work" },
          .transaction { kind := .commit }],
        u.node ∈ (parse .postgres source).statements.map RawStatement.node ∧
          (parse .postgres u.node.text.toList).IsOnly u.node := by
  intro source
  -- Nodes are not compared, but what they are statements of is.
  suffices hread : (parse .postgres source).isClean = true ∧ ∀ u ∈ _,
      some u ∈ (parse .postgres source).statements.map fun r => Utility.ofNode? r.node from
    ⟨hread.1, fun u hu =>
      have hmem := Utility.mem_of_ofNode? (hread.2 u hu)
      ⟨hmem, parse_text_of_utility hread.1 hmem⟩⟩
  -- the parts of the text are cheaper to evaluate than the text that they are joined to
  simp only [source, String.toList_append]
  decide +kernel

end SqlSyntax
