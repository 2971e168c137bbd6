import SqlSyntax.Proofs.Grammar.ReadingNames
import SqlSyntax.Proofs.Lexeme.Locality
import SqlSyntax.Proofs.Rendering.Quotes

/-!
# Written names in front of other text

A name is written bare where that reads back as the same name.  What may follow it depends
on how it is written: behind a quote no other quote, behind a bare word nothing that
continues it or makes it the mark of a constant.

## Main results

* `quoteName_eq_self_iff` — the names that are written as they are.
* `runWith_name`, `runWith_callName`, `runWith_label` — every kind of name that a token is.
* `next_quoteName` — **the first token of a text that starts with a written name.**
-/

namespace SqlSyntax

variable {s : String}

/-! ### How a name is written -/

theorem Quoted.le_length_double (q : Char) (cs : List Char) : cs.length ≤ (double q cs).length := by
  induction cs with
  | nil => exact Nat.le_refl 0
  | cons c cs ih =>
    rw [double_cons]
    split <;> simp only [List.length_cons] <;> omega

/-- The names that are written as they are. -/
theorem quoteName_eq_self_iff : quoteName s = s ↔ Quoted.isBareName s.toList = true := by
  rw [quoteName, ← String.toList_inj, String.toList_ofList, Quoted.nameChars]
  split
  · next hbare => exact iff_of_true rfl hbare
  · next hbare =>
    refine iff_of_false (fun heq => ?_) hbare
    have hlength := congrArg List.length heq
    rw [List.length_append, List.length_cons, List.length_singleton] at hlength
    have := Quoted.le_length_double '"' s.toList
    omega

/-! ### How a token is read as a name -/

namespace Grammar

variable {b : Boundary} {rules : (r : Rule) → Cursor → Outcome r.Result} {c : Cursor}

theorem runWith_name (h : nameOf? Keyword.isColumnName (c.current b) = some s) :
    name.runWith b rules c = .ok s c.advance := by
  change (readAs (nameOf? Keyword.isColumnName (c.current b)) .name).runWith b rules c = _
  rw [h]
  rfl

theorem runWith_callName (h : nameOf? Keyword.isTypeName (c.current b) = some s) :
    callName.runWith b rules c = .ok s c.advance := by
  change (readAs (nameOf? Keyword.isTypeName (c.current b)) .name).runWith b rules c = _
  rw [h]
  rfl

theorem runWith_label (h : labelOf? (c.current b) = some s) :
    label.runWith b rules c = .ok s c.advance := by
  change (readAs (labelOf? (c.current b)) .name).runWith b rules c = _
  rw [h]
  rfl

end Grammar

/-! ### The first token -/

/-- A piece of text that is read as a token is the first token of a stream. -/
theorem Begins.next_ofRaw {d : Dialect} {p t : List Char} {k : TokenKind} (h : Begins d p t k) :
    (TokenStream.ofRaw d (p ++ t)).next.1 = ⟨k, ⟨0, byteLength p⟩⟩ ∧
      (TokenStream.ofRaw d (p ++ t)).next.2.diagnostics = [] := by
  have hfirst := h.firstLexeme_eq 0
  rw [Nat.zero_add] at hfirst
  rw [TokenStream.ofRaw, rawLexemes, rawLexemesFrom]
  dsimp only
  rw [hfirst, if_neg (TokenKind.ne_eof_of_isInner h.inner)]
  exact ⟨rfl, rfl⟩

/-- **The first token of a text that starts with a written name.**  It takes what is written
for the name and nothing else, without a diagnostic.  It is the name, or a keyword of that
spelling that is not reserved, and every production that reads a name takes it for the
name. -/
theorem next_quoteName {d : Dialect} {t : List Char} (hname : s ≠ "")
    (hlength : byteLength s.toList ≤ d.maxNameLength)
    (hquoted : quoteName s ≠ s → t.head? ≠ some '"')
    (hbare : quoteName s = s → LeavesName s.toList t) :
    let next := (TokenStream.ofRaw d ((quoteName s).toList ++ t)).next
    next.1.span = ⟨0, byteLength (quoteName s).toList⟩ ∧ next.2.diagnostics = [] ∧
      (next.1.kind = .name s ∨ ∃ w : Keyword,
        next.1.kind = .keyword w ∧ w.category = .unreserved ∧ w.spelling = s) ∧
      ∀ b rules (c : Cursor), c.current b = next.1.kind →
        Grammar.name.runWith b rules c = .ok s c.advance ∧
        Grammar.callName.runWith b rules c = .ok s c.advance ∧
        Grammar.label.runWith b rules c = .ok s c.advance := by
  have hbegins : Begins d (quoteName s).toList t (nameKind s) := by
    refine begins_name hname hlength (fun h => hbare (quoteName_eq_self_iff.mpr h)) fun h => ?_
    refine hquoted fun heq => ?_
    rw [quoteName_eq_self_iff, h] at heq
    cases heq
  obtain ⟨htoken, hdiagnostics⟩ := hbegins.next_ofRaw
  dsimp only
  rw [htoken]
  refine ⟨rfl, hdiagnostics, nameKind_cases s, fun b rules c hc => ⟨?_, ?_, ?_⟩⟩
  · exact Grammar.runWith_name (hc ▸ nameOf?_nameKind (fun _ => isColumnName_of_unreserved) s)
  · exact Grammar.runWith_callName (hc ▸ nameOf?_nameKind (fun _ => isTypeName_of_unreserved) s)
  · exact Grammar.runWith_label (hc ▸ labelOf?_nameKind s)

/-- The name `u` is a bare word, in front of an ampersand too. -/
theorem next_quoteName_ampersand :
    "u" ≠ "" ∧ byteLength "u".toList ≤ Dialect.postgres.maxNameLength ∧
      (quoteName "u" ≠ "u" → "& 'a'".toList.head? ≠ some '"') ∧
      LeavesName "u".toList "& 'a'".toList ∧
      (TokenStream.ofRaw .postgres ((quoteName "u").toList ++ "& 'a'".toList)).next.1.span
        = ⟨0, 1⟩ := by
  have hends : ∀ x ∈ "& 'a'".toList.head?, isNamePart x = false := by
    have hhead : "& 'a'".toList.head? = some '&' := by decide
    intro x hx
    rw [hhead, Option.mem_some_iff] at hx
    exact hx ▸ rfl
  have hleaves : LeavesName "u".toList "& 'a'".toList :=
    ⟨hends, fun _ => by decide, fun _ => by decide⟩
  have hlength : byteLength "u".toList ≤ Dialect.postgres.maxNameLength := by decide
  have hne : "u" ≠ "" := by decide
  have hquoted : quoteName "u" ≠ "u" → "& 'a'".toList.head? ≠ some '"' := fun _ => by decide
  have hwritten : byteLength (quoteName "u").toList = 1 := by decide +kernel
  have hnext := (next_quoteName hne hlength hquoted fun _ => hleaves).1
  rw [hwritten] at hnext
  exact ⟨hne, hlength, hquoted, hleaves, hnext⟩

end SqlSyntax
