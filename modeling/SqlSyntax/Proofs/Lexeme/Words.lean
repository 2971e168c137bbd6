import SqlSyntax.Proofs.Lexeme.Dollars
import SqlSyntax.Proofs.Lexeme.NameLimit
import SqlSyntax.Proofs.Rendering.Literals

/-!
# Words that stand alone

The rule for words folds the letters, looks the word up, and cuts it only if it is no keyword.
So a word that spells a keyword is that keyword, in any case of its letters, and all others are
names: also a word that would spell a keyword once it is cut, and one that is turned away before
the table is searched.

## Main results

* `rawLexemes_word` — what is read of a word that stands alone.
* `tokenize_word` — **a word is a keyword if its spelling is in the table, and else a name.**
-/

namespace SqlSyntax

variable {d : Dialect} {c : Char} {cs : List Char}

/-- A word that stands alone is read by the rule for words. -/
theorem rawLexemes_word (hc : isNameStart c = true) (hcs : ∀ x ∈ c :: cs, isNamePart x = true) :
    let r := readWord d 0 (c :: cs)
    let stop := byteLength (c :: cs)
    isEscaped r.kind = false ∧
      rawLexemes d (c :: cs) = [⟨⟨r.kind, ⟨0, stop⟩⟩, r.notes⟩, ⟨⟨.eof, ⟨stop, stop⟩⟩, []⟩] := by
  intro r stop
  obtain ⟨hinner, htaken⟩ : r.kind.isInner = true ∧ r.taken = (c :: cs).length := by
    simp only [r, readWord, List.takeWhile_eq_self_iff.mpr hcs]
    split <;> exact ⟨rfl, rfl⟩
  have hmark := partsOff_nil.leavesWord.unmarked (c := c) (List.forall_mem_cons.mp hcs).2
  rw [List.append_nil] at hmark
  have hread : readToken d 0 c cs = ⟨r.kind, (c :: cs).length, r.notes⟩ := by
    rw [readToken_word hc hmark, ← htaken]
  have hcomment : startsComment (c :: cs) = false :=
    startsComment_of_ne (ne_of_isNameStart rfl hc) (ne_of_isNameStart rfl hc) cs
  refine ⟨?_, rawLexemes_alone (TokenKind.ne_eof_of_isInner hinner)
    (isBlank_of_isNameStart hc) hcomment hread⟩
  exact Bool.not_eq_true' _ ▸ (Bool.and_eq_true_iff.mp hinner).2

/-- A word that stands alone is the only token that is handed out. -/
theorem IsReader.tokens_word {stream : List Char → TokenStream} (hs : IsReader d stream)
    (hc : isNameStart c = true) (hcs : ∀ x ∈ c :: cs, isNamePart x = true) :
    (stream (c :: cs)).tokenize.1
      = ((readWord d 0 (c :: cs)).kind.alone (String.ofList (c :: cs))).1 := by
  obtain ⟨hescaped, hraw⟩ := rawLexemes_word (d := d) hc hcs
  rw [hs.tokenize_eq, TokenKind.alone, String.toList_ofList]
  rcases hs with rfl | rfl
  · rw [TokenStream.ofRaw, hraw]
    rfl
  · rw [TokenStream.ofText, lexemes, hraw, resolve_alone hescaped rfl rfl]
    rfl

/-- **Words are looked up in any case of their letters, and the look-up is complete.**  A row of
the table is found for a word if and only if the row's spelling is the word in lower case.  A word
that stands alone, in characters of names, is read as a keyword if and only if that is how the
keyword is spelled.  If no keyword is spelled so, it is a name: the longest beginning of the word
in lower case that its dialect keeps. -/
theorem tokenize_word (d : Dialect) (word : List Char) :
    (∀ e, Keyword.lookupEntry word = some e
      ↔ e ∈ Keyword.table ∧ e.spelling.toList = lowerCase word) ∧
    (word.head?.any isNameStart = true → (∀ x ∈ word, isNamePart x = true) →
      ∃ k : TokenKind,
        (∀ stream, IsReader d stream →
          (stream word).tokenize.1 = (k.alone (String.ofList word)).1) ∧
        (∀ w, k = .keyword w ↔ w.spelling.toList = lowerCase word) ∧
        ((∀ w : Keyword, w.spelling.toList ≠ lowerCase word) →
          ∃ name, k = .name name ∧
            IsLongestWithin d.maxNameLength (lowerCase word) name.toList)) := by
  refine ⟨fun e => Keyword.lookupEntry_eq_some_iff, fun hstart hword => ?_⟩
  cases word with
  | nil => cases hstart
  | cons c cs =>
    refine ⟨(readWord d 0 (c :: cs)).kind, fun stream hs => hs.tokens_word hstart hword, ?_⟩
    rw [readWord, List.takeWhile_eq_self_iff.mpr hword]
    cases hlookup : Keyword.lookup (c :: cs) with
    | some k =>
      have hspelling := Keyword.lookup_eq_some_iff.mp hlookup
      refine ⟨fun w => ?_, fun hnone => absurd hspelling (hnone k)⟩
      rw [← Keyword.lookup_eq_some_iff, hlookup, Option.some.injEq]
      exact ⟨TokenKind.keyword.inj, congrArg _⟩
    | none =>
      -- only now the word is cut, and not looked up again
      refine ⟨fun w => ?_, fun _ => ⟨_, rfl, isLongestWithin_limitName d 0 _⟩⟩
      rw [← Keyword.lookup_eq_some_iff, hlookup]
      simp only [reduceCtorEq]

/-- A word that is turned away for its last letter is a name, though what is left of it when it
is cut spells a keyword. -/
theorem tokenize_word_cut :
    let d := { Dialect.postgres with maxNameLength := 7 }
    let word := "SeLectÉ".toList
    word.head?.any isNameStart = true ∧ (∀ x ∈ word, isNamePart x = true) ∧
      (∀ w : Keyword, w.spelling.toList ≠ lowerCase word) ∧
      ∃ name, IsLongestWithin 7 (lowerCase word) name.toList ∧
        ∀ stream, IsReader d stream →
          (stream word).tokenize.1 = ((TokenKind.name name).alone (String.ofList word)).1 := by
  intro d word
  have hstart : word.head?.any isNameStart = true := by decide
  have hword : ∀ x ∈ word, isNamePart x = true := List.all_eq_true.mp (by decide)
  have hnone : Keyword.lookupEntry word = none := by decide +kernel
  obtain ⟨hlookup, htokens⟩ := tokenize_word d word
  have hfree : ∀ w : Keyword, w.spelling.toList ≠ lowerCase word := by
    intro w hspelling
    have hfound := (hlookup w.entry).mpr ⟨List.mem_map_of_mem w.mem_all, hspelling⟩
    rw [hnone] at hfound
    cases hfound
  obtain ⟨k, hk, -, hname⟩ := htokens hstart hword
  obtain ⟨name, rfl, hkept⟩ := hname hfree
  exact ⟨hstart, hword, hfree, name, hkept, hk⟩

end SqlSyntax
