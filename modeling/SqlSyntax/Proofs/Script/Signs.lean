import SqlSyntax.Proofs.Expression.Signs
import SqlSyntax.Proofs.Grammar.Within
import SqlSyntax.Proofs.Script.Readback

/-!
# Signed numbers are constants

A number of a text with minus signs in front of it is read as a constant, not as operations on
one.  The constant has the value that the text says, and is read back from what it is written as.

## Main definitions

* `IsExpression d text n` — a text is an expression, and there is nothing to say about it.

## Main results

* `isExpression_of_within` — a text that spells an expression is that expression.
* `expression_signs` — **minus signs in front of a number keep its value, up to the sign.**
-/

namespace SqlSyntax

open Grammar

variable {d : Dialect} {cs source : List Char} {ks rest : List TokenKind} {n : Node} {t : Token}

/-- The tokens of the text are read as the expression `n` to their end, and there is nothing to
say about the text or the expression. -/
def IsExpression (d : Dialect) (text : List Char) (n : Node) : Prop :=
  ∃ tokens stop, (TokenStream.ofText d text).tokenize = (tokens ++ [stop], []) ∧ stop.kind = .eof ∧
    (expression.run .ofText { run := tokens.map Token.kind }).Is [] n []

/-- A text that spells an expression is that expression, if reading it takes no more levels than
there are. -/
theorem isExpression_of_within (h : Spells d cs ks)
    (hreads : expression.ReadsWith (Rule.Within maxNesting) (settle ks) n []) :
    IsExpression d cs n := by
  obtain ⟨run, stop, hlexemes, hrun, hstop, hnotes⟩ := lexemes_of_spells h
  have hdiagnostics : (lexemes d cs).flatMap (Lexeme.diagnostics (LineIndex.ofText cs)) = [] :=
    List.flatMap_eq_nil_iff.mpr fun l hl => by rw [Lexeme.diagnostics, hnotes l hl, List.map_nil]
  refine ⟨run.map Lexeme.token, stop.token, ?_, hstop, ?_⟩
  · have htokens : (TokenStream.ofText d cs).tokenize = ((lexemes d cs).map Lexeme.token,
        (lexemes d cs).flatMap (Lexeme.diagnostics (LineIndex.ofText cs))) :=
      TokenStream.tokenize_of_endsOnce (endsOnce_lexemes d cs)
    rw [hdiagnostics, hlexemes, List.map_append] at htokens
    exact htokens
  · refine Parser.ReadsWith.run_within (c := { run := (run.map Lexeme.token).map Token.kind }) ?_
    rw [List.map_map]
    exact hrun ▸ hreads

/-- **Minus signs in front of a number keep its value, up to the sign.**  Take a number of a text
that has no error where it starts, in any notation.  Behind as many signs as there are levels for,
it is read as a constant, with the value that its text has or the opposite one.  Whatever form the
constant has then, it is read back from what it is written as, in any dialect. -/
theorem expression_signs (ht : t ∈ (TokenStream.ofText d source).tokenize.1)
    (hnumber : t.kind.isNumber = true)
    (hquiet : ∀ g ∈ (TokenStream.ofText d source).tokenize.2, g.severity = .error →
      g.location ≠ some ((LineIndex.ofText source).locate t.span.start))
    {signs : Nat} (hsigns : signs < maxNesting) (hrest : Level.ofInfix? (firstOf rest) = none)
    (c : Cursor) (hc : c.run = List.replicate signs .minus ++ t.kind :: rest) :
    ∃ v q, (expression.run .ofText c).Is c.warnings (.const v) rest ∧
      IsNumeral (t.span.charsIn source) q ∧ v.HasValue ((-1) ^ signs * q) ∧
      ∀ d', IsExpression d' (Node.const v).text.toList (.const v) := by
  obtain ⟨v, q, hk, hread, hvalue, hnumeral⟩ := isNumberIn_of_mem ht hnumber hquiet
  obtain ⟨w, hw, hwread, hwvalue⟩ := hvalue.iterate_negate hread signs
  have hwithin {signs : Nat} {k : TokenKind} {v : Literal} {rest : List TokenKind}
      (hsigns : signs < maxNesting) (hk : k.constant? = some v)
      (hrest : Level.ofInfix? (firstOf rest) = none) :
      expression.ReadsWith (Rule.Within maxNesting) (List.replicate signs .minus ++ k :: rest)
        (Node.negate^[signs] (.const v)) rest :=
    ⟨_, _, (within_signs hk hrest signs 0).mono hsigns, rfl, rfl⟩
  refine ⟨w, q, ?_, hnumeral, hwvalue, fun d' => ?_⟩
  · refine Parser.ReadsWith.run_within ?_
    rw [hc, ← hw]
    exact hwithin hsigns hk hrest
  · obtain ⟨signs', k', w', hone, hk', hspells, hnegate⟩ := exists_spells_number hwvalue hwread d'
    rw [toList_text_const]
    refine isExpression_of_within hspells ?_
    have hsettled : ∀ k ∈ List.replicate signs' .minus ++ [k'], k.isSettled = true := by
      refine List.forall_mem_append.mpr ⟨fun k hk => ?_, ?_⟩
      · rw [List.eq_of_mem_replicate hk]
        rfl
      · exact List.forall_mem_singleton.mpr (isSettled_of_constant? hk')
    rw [settle_eq hsettled, ← hnegate]
    exact hwithin (Nat.lt_of_le_of_lt hone (by decide)) hk' rfl

/-- The text of a number that is too large becomes an integer, a text and an integer again. -/
theorem expression_signs_least :
    let source := "0x_7F + 2147483648, 1_0.5e-1".toList
    let t : Token := ⟨.float "2147483648", ⟨8, 18⟩⟩
    let c : Cursor := { run := [.minus, .minus, .minus, .float "2147483648", .comma] }
    t ∈ (TokenStream.ofText .postgres source).tokenize.1 ∧ t.kind.isNumber = true ∧
      (∀ g ∈ (TokenStream.ofText .postgres source).tokenize.2, g.severity = .error →
        g.location ≠ some ((LineIndex.ofText source).locate t.span.start)) ∧
      3 < maxNesting ∧ Level.ofInfix? (firstOf [.comma]) = none ∧
      c.run = List.replicate 3 .minus ++ [t.kind, .comma] ∧
      ∃ v q, (expression.run .ofText c).Is c.warnings (.const v) [.comma] ∧
        IsNumeral (t.span.charsIn source) q ∧ v.HasValue ((-1) ^ 3 * q) ∧
        ∀ d', IsExpression d' (Node.const v).text.toList (.const v) := by
  intro source t c
  have ht : t ∈ (TokenStream.ofText .postgres source).tokenize.1 := by decide +kernel
  have hquiet : ∀ g ∈ (TokenStream.ofText .postgres source).tokenize.2, g.severity = .error →
      g.location ≠ some ((LineIndex.ofText source).locate t.span.start) := by
    decide +kernel
  have hsigns : 3 < maxNesting := by decide
  have hrun : c.run = List.replicate 3 .minus ++ t.kind :: [.comma] := rfl
  exact ⟨ht, rfl, hquiet, hsigns, rfl, hrun, expression_signs ht rfl hquiet hsigns rfl c hrun⟩

end SqlSyntax
