import SqlSyntax.Proofs.Lexeme.Exchange
import SqlSyntax.Proofs.Lexeme.Naming
import SqlSyntax.Proofs.Rendering.Names
import SqlSyntax.Proofs.Script.Layout
import SqlSyntax.Proofs.Script.Single

/-!
# Names without their quotes

A name that can be written bare may stand between quotes.  Without them it is the same token,
unless it spells a keyword: the grammar asks for many of these, also where it would read a name.
So a script stays the same script if the quotes are taken from a name that is no keyword.

## Main results

* `parse_eq_of_gists` — scripts whose tokens and problems are the same.
* `parse_bareName` — **a name that is no keyword means the same without quotes.**
-/

namespace SqlSyntax

variable {d d' : Dialect} {source source' left right s : List Char}

/-! ### Scripts that say the same -/

theorem problems_eq_of_gists {ls ls' : List Lexeme} (h : ls.map Lexeme.gist = ls'.map Lexeme.gist) :
    Session.problems ls = Session.problems ls' := by
  have hgists (ls : List Lexeme) : Session.problems ls = (ls.map Lexeme.gist).flatMap Prod.snd := by
    rw [List.flatMap_map]
    rfl
  rw [hgists, hgists, h]

theorem isNone_values (d : Dialect) (source : List Char) :
    (Session.values d source).countP Option.isNone
      = (Session.trees d source).countP Option.isNone := by
  rw [Session.values, Session.trees, List.countP_map, List.countP_map]
  congr 1
  funext a
  exact Option.isNone_map.symm

/-- Scripts whose lexemes say the same hold the same statements and have as many errors. -/
theorem parse_eq_of_gists
    (h : (lexemes d source).map Lexeme.gist = (lexemes d' source').map Lexeme.gist) :
    (parse d source).isClean = (parse d' source').isClean ∧
      (parse d source).statements.map RawStatement.node
        = (parse d' source').statements.map RawStatement.node := by
  have hkinds : (lexemes d source).map Lexeme.kind = (lexemes d' source').map Lexeme.kind := by
    simpa [Lexeme.gist, Function.comp_def] using congrArg (List.map Prod.fst) h
  have htrees := Session.trees_eq_of_kinds hkinds
  have herrors : (parse d source).errors.length = (parse d' source').errors.length := by
    rw [Session.length_errors, Session.length_errors, problems_eq_of_gists h, isNone_values,
      isNone_values, htrees]
  constructor
  · rw [Bool.eq_iff_iff, ParseResult.isClean_iff, ParseResult.isClean_iff,
      ← List.length_eq_zero_iff, ← List.length_eq_zero_iff, herrors, Session.success_eq_trees,
      Session.success_eq_trees, htrees]
  · rw [Session.map_node_statements, Session.map_node_statements, htrees]

/-! ### Names -/

/-- What a name of its own says: the name, or so much of it as there is room for. -/
def nameGist (d : Dialect) (s : List Char) : TokenKind × List LexicalProblem :=
  (.name (limitName d 0 s).1, (limitName d 0 s).2.map Note.problem)

/-- A text that a rule reads as the name `s` says this name. -/
theorem opensWith_of_readToken {c : Char} {cs t : List Char} (hblank : isBlank c = false)
    (hcomment : startsComment (c :: (cs ++ t)) = false)
    (hread : readToken d 0 c (cs ++ t)
      = ⟨.name (limitName d 0 s).1, (c :: cs).length, (limitName d 0 s).2⟩) :
    OpensWith d (c :: cs) t (nameGist d s) :=
  ⟨_, rawLexemes_of_readToken (TokenKind.ne_eof_of_isInner rfl) hblank hcomment hread, rfl⟩

/-- A name between quotes says the name. -/
theorem opensWith_quotedName (hs : ∀ c ∈ s, Quoted.isBareChar c = true) (hne : s ≠ [])
    (hright : right.head? ≠ some '"') : OpensWith d ('"' :: (s ++ ['"'])) right (nameGist d s) := by
  have hquote : '"' ∉ s := fun hmem => absurd (hs _ hmem) (by decide)
  refine opensWith_of_readToken rfl (startsComment_of_ne (by decide) (by decide) _) ?_
  have hread := readToken_quoted (d := d) hne hright 0
  rw [Quoted.double_eq_self hquote] at hread
  rw [List.append_assoc, List.singleton_append, hread, List.length_cons, List.length_append,
    List.length_singleton]

/-- A bare word that is no keyword says the name. -/
theorem opensWith_bareName (hs : Quoted.isBareName s = true) (hfree : Keyword.lookup s = none)
    {x : Char} (hx : isBlank x = true) : OpensWith d s (x :: right) (nameGist d s) := by
  have hchars := isBareChar_of_isBareName hs
  have hparts : ∀ c ∈ s, isNamePart c = true := fun c hc => isNamePart_of_isBareChar (hchars c hc)
  have hleaves : LeavesWord (x :: right) :=
    (partsOff_cons (breaks_of_isBlank hx).1 right).leavesWord
  cases s with
  | nil => cases hs
  | cons c s =>
    have hc : isNameStart c = true := by
      simp only [Quoted.isBareName, Bool.and_eq_true] at hs
      exact isNameStart_of_isBareStart hs.1.1
    refine opensWith_of_readToken (isBlank_of_isNameStart hc)
      (startsComment_of_ne (ne_of_isNameStart rfl hc) (ne_of_isNameStart rfl hc) _) ?_
    rw [readToken_word_append hc hparts hleaves.ends
      (hleaves.unmarked (List.forall_mem_cons.mp hparts).2), readWord,
      List.takeWhile_eq_self_iff.mpr hparts, hfree, lowerCase_of_isBareChar hchars]

/-- A name between quotes ends where no quote follows. -/
theorem exists_of_readQuotedName {start : Nat} {cs : List Char}
    (h : (readQuotedName d start ('"' :: cs)).kind ≠ .eof) :
    ∃ body rest, cs = Quoted.double '"' body ++ ['"'] ++ rest ∧ rest.head? ≠ some '"' ∧
      (readQuotedName d start ('"' :: cs)).taken = (Quoted.double '"' body ++ ['"']).length + 1 := by
  rw [readQuotedName, List.drop_one, List.tail_cons] at h ⊢
  cases hbody : quoted '"' cs with
  | none =>
    rw [hbody] at h
    exact absurd rfl h
  | some r =>
    obtain ⟨rest, hcs, hlength, hrest⟩ := exists_of_quoted hbody
    exact ⟨r.1, rest, hcs, hrest, congrArg (· + 1) hlength⟩

/-- Where a token is a text between quotes, no further quote follows. -/
theorem head?_of_quotedName {l : Lexeme} (hl : l ∈ rawLexemes d (left ++ ('"' :: (s ++ ['"']) ++ right)))
    (hspan : l.token.span
      = ⟨byteLength left, byteLength left + byteLength ('"' :: (s ++ ['"']))⟩) :
    right.head? ≠ some '"' := by
  obtain ⟨hstart, hstop⟩ := Span.mk.inj hspan
  rw [List.cons_append] at hl
  generalize hcs : s ++ ['"'] ++ right = cs at hl
  obtain ⟨c, cs, htext, -, hkind, rfl⟩ := isReadFrom_of_start hl hstart
  obtain ⟨rfl, rfl⟩ := List.cons.inj htext
  rw [readToken_quotedName] at hkind
  obtain ⟨body, rest, rfl, hrest, htaken⟩ := exists_of_readQuotedName hkind
  have hbytes : byteLength (s ++ ['"']) = byteLength (Quoted.double '"' body ++ ['"']) := by
    dsimp only at hstop
    rw [readToken_quotedName, htaken, List.take_succ_cons, List.take_left, byteLength_cons,
      byteLength_cons] at hstop
    omega
  obtain ⟨-, rfl⟩ := append_inj_of_byteLength hcs hbytes
  exact hrest

/-- **A name that is no keyword means the same without quotes.**  Let a token of a text be a name
between quotes that would be written without them, and that no keyword is spelled by.  The text
with the bare name between blanks in its place has the same statements, and it is without errors
just if the text is. -/
theorem parse_bareName {t : Token}
    (ht : t ∈ (TokenStream.ofRaw d (left ++ ('"' :: (s ++ ['"']) ++ right))).tokenize.1)
    (hspan : t.span = ⟨byteLength left, byteLength left + byteLength ('"' :: (s ++ ['"']))⟩)
    (hbare : quoteName (String.ofList s) = String.ofList s)
    (hfree : ∀ w : Keyword, w.spelling.toList ≠ s) :
    let quoted := parse d (left ++ ('"' :: (s ++ ['"']) ++ right))
    let bare := parse d (left ++ ' ' :: (s ++ ' ' :: right))
    bare.isClean = quoted.isClean ∧
      bare.statements.map RawStatement.node = quoted.statements.map RawStatement.node := by
  rw [quoteName_eq_self_iff, String.toList_ofList] at hbare
  rw [TokenStream.tokenize_ofRaw] at ht
  obtain ⟨l, hl, rfl⟩ := List.mem_map.mp ht
  have hchars := isBareChar_of_isBareName hbare
  have hlookup : Keyword.lookup s = none := by
    rw [Option.eq_none_iff_forall_ne_some]
    intro w hw
    rw [Keyword.lookup_eq_some_iff, lowerCase_of_isBareChar hchars] at hw
    exact hfree w hw
  have hne : s ≠ [] := by
    rintro rfl
    cases hbare
  have hright := head?_of_quotedName hl hspan
  exact parse_eq_of_gists (gist_lexemes_exchange hl (congrArg Span.start hspan)
    ⟨'"', rfl, by decide, by decide, by decide⟩ (opensWith_quotedName hchars hne hright)
    (opensWith_bareName hbare hlookup rfl))

/-- The name of a table, behind a comment and in front of a semicolon. -/
theorem parse_bareName_table :
    let left := "select a from --\n".toList
    let quoted := parse .postgres (left ++ ('"' :: ("my_table".toList ++ ['"']) ++ ";".toList))
    let bare := parse .postgres (left ++ ' ' :: ("my_table".toList ++ ' ' :: ";".toList))
    bare.isClean = true ∧
      bare.statements.map RawStatement.node = quoted.statements.map RawStatement.node := by
  intro left quoted bare
  have ht : ⟨.name "my_table", ⟨17, 27⟩⟩ ∈ (TokenStream.ofRaw .postgres
      (left ++ ('"' :: ("my_table".toList ++ ['"']) ++ ";".toList))).tokenize.1 := by
    decide +kernel
  have hbare : quoteName (String.ofList "my_table".toList) = String.ofList "my_table".toList := by
    decide +kernel
  have hfree : ∀ w : Keyword, w.spelling.toList ≠ "my_table".toList := by
    have hlower : lowerCase "my_table".toList = "my_table".toList := by decide +kernel
    have hnone : Keyword.lookup "my_table".toList = none := by decide +kernel
    intro w hw
    rw [← hlower, ← Keyword.lookup_eq_some_iff, hnone] at hw
    cases hw
  have hclean : quoted.isClean = true := by decide +kernel
  obtain ⟨hsame, hnodes⟩ := parse_bareName ht (by decide +kernel) hbare hfree
  exact ⟨hsame.trans hclean, hnodes⟩

end SqlSyntax
