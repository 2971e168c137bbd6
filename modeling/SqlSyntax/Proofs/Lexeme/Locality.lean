import SqlSyntax.Lexeme.Stream
import SqlSyntax.Proofs.Lexeme.Append

/-!
# Tokens of a text in two parts

All rules for tokens look ahead.  At a line break they see the same as at the end of a
text, so the tokens that a stream hands out for two texts with a line break between them
are those of the texts, and so are the problems that it records.

## Main results

* `closed_ofRaw` — where nothing unterminated is recorded, nothing is unclosed.
* `rawTokens_append` — **the raw tokens of two texts with a line break between them.**
-/

namespace SqlSyntax

/-- What a diagnostic says, apart from where. -/
def Diagnostic.verdict (g : Diagnostic) : Severity × String :=
  (g.severity, g.message)

namespace Lexeme

variable (ix : LineIndex) (k : Nat) (l : Lexeme) (ls : List Lexeme)

/-- What is recorded for a lexeme says the same, wherever it stands. -/
theorem verdict_diagnostics : (l.diagnostics ix).map Diagnostic.verdict
    = l.notes.map fun n => (n.problem.severity, n.problem.message) := by
  rw [diagnostics, List.map_map]
  rfl

theorem verdict_diagnostics_shift (ix' : LineIndex) :
    ((l.shift k).diagnostics ix').map Diagnostic.verdict
      = (l.diagnostics ix).map Diagnostic.verdict := by
  rw [verdict_diagnostics, verdict_diagnostics, shift, List.map_map]
  rfl

end Lexeme

namespace TokenStream

variable {d : Dialect} {source : List Char}

theorem rawLexemes_ne_nil : rawLexemes d source ≠ [] := by
  rw [rawLexemes, rawLexemesFrom]
  dsimp only
  split <;> exact List.cons_ne_nil _ _

theorem tokenize_ofRaw (d : Dialect) (source : List Char) :
    (ofRaw d source).tokenize
      = ((rawLexemes d source).map Lexeme.token,
          (rawLexemes d source).flatMap (Lexeme.diagnostics (LineIndex.ofText source))) := by
  have hne : (rawLexemes d source).isEmpty = false := by
    rw [List.isEmpty_eq_false_iff]
    exact rawLexemes_ne_nil
  simp only [tokenize, ofRaw, hne, List.nil_append]
  rfl

/-- Where nothing unterminated is recorded, nothing is unclosed. -/
theorem closed_ofRaw (h : ∀ g ∈ (ofRaw d source).tokenize.2, g.isUnterminated = false) :
    Closed (rawLexemes d source) := by
  intro l hl n hn
  have hg := h (n.diagnostic (LineIndex.ofText source)) (by
    rw [tokenize_ofRaw]
    exact List.mem_flatMap.mpr ⟨l, hl, List.mem_map.mpr ⟨n, hn, rfl⟩⟩)
  by_contra hun
  rw [isUnterminated_of_isUnclosed (Bool.not_eq_false _ ▸ hun)] at hg
  exact Bool.noConfusion hg

/-- **The raw tokens of two texts with a line break between them.**  If nothing is left
unterminated in the first text, they are its tokens before the end and, further on, those
of the second text.  The problems that are recorded for the first text come before those
that are recorded for the second. -/
theorem rawTokens_append (d : Dialect) (a b : List Char)
    (h : ∀ g ∈ (ofRaw d a).tokenize.2, g.isUnterminated = false) :
    let first := (ofRaw d a).tokenize
    let second := (ofRaw d b).tokenize
    let whole := (ofRaw d (a ++ '\n' :: b)).tokenize
    ∃ before fin, first.1 = before ++ [fin] ∧ fin.kind = .eof ∧ (∀ t ∈ before, t.kind ≠ .eof) ∧
      whole.1 = before ++ second.1.map (Token.shift (byteLength a + 1)) ∧
      whole.2.map Diagnostic.verdict
        = first.2.map Diagnostic.verdict ++ second.2.map Diagnostic.verdict := by
  obtain ⟨init, hinit, ha, hwhole⟩ := rawLexemes_append d a b (closed_ofRaw h)
  simp only [tokenize_ofRaw]
  refine ⟨init.map Lexeme.token, (endLexeme 0 a []).token, ?_, rfl, ?_, ?_, ?_⟩
  · rw [ha, List.map_append, List.map_singleton]
  · intro t ht
    obtain ⟨l, hl, rfl⟩ := List.mem_map.mp ht
    exact hinit l hl
  · rw [hwhole, List.map_append, List.map_map, List.map_map]
    rfl
  · -- the places of the diagnostics are counted in different texts
    have hverdicts (ix ix' : LineIndex) (ls : List Lexeme) :
        (ls.flatMap (Lexeme.diagnostics ix)).map Diagnostic.verdict
          = (ls.flatMap (Lexeme.diagnostics ix')).map Diagnostic.verdict := by
      simp only [List.map_flatMap, Lexeme.verdict_diagnostics]
    have hfin (ix : LineIndex) : (endLexeme 0 a []).diagnostics ix = [] := rfl
    rw [hwhole, List.flatMap_append, List.map_append, List.flatMap_map, List.map_flatMap,
      List.map_flatMap]
    simp only [Lexeme.verdict_diagnostics_shift (LineIndex.ofText b)]
    rw [← List.map_flatMap, ← List.map_flatMap, ha, List.flatMap_append, List.flatMap_singleton,
      hfin, List.append_nil, hverdicts]

/-- A number that would go on behind the line break has its error and ends there. -/
theorem rawTokens_append_exponent :
    (∀ g ∈ (ofRaw .postgres "select 1.e".toList).tokenize.2, g.isUnterminated = false) ∧
      ∃ before, (ofRaw .postgres "select 1.e".toList).tokenize.1.map Token.kind
          = before ++ [TokenKind.eof] ∧
        (ofRaw .postgres ("select 1.e".toList ++ '\n' :: "5 -- done".toList)).tokenize.1.map Token.kind
          = before ++ [.integer 5, .eof] := by
  have h : ∀ g ∈ (ofRaw .postgres "select 1.e".toList).tokenize.2, g.isUnterminated = false := by
    decide +kernel
  have hsecond : (ofRaw .postgres "5 -- done".toList).tokenize.1.map Token.kind
      = [.integer 5, .eof] := by
    decide +kernel
  obtain ⟨before, fin, hfirst, hfin, -, hwhole, -⟩ :=
    rawTokens_append .postgres "select 1.e".toList "5 -- done".toList h
  refine ⟨h, before.map Token.kind, ?_, ?_⟩
  · rw [hfirst, List.map_append, List.map_singleton, hfin]
  · rw [hwhole, List.map_append, List.map_map, ← hsecond]
    rfl

end TokenStream
end SqlSyntax
