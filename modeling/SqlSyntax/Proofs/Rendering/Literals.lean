import SqlSyntax.Grammar.Primary
import SqlSyntax.Lexeme.Stream
import SqlSyntax.Proofs.Rendering.Written

/-!
# Literals that are written and read again

A literal of a text may be spelled in many ways: in several kinds of quotes, with escapes, in
several radixes, with an exponent.  Whatever its spelling was, its value is written in one way,
and that is read as the same token again.

## Main definitions

* `TokenKind.leaf?` — the node that a literal or a parameter is read as.
* `Lexeme.IsMarked` — a literal is one that can be written, or there is an error where it starts.

## Main results

* `readToken_isMarked`, `isMarked_lexemes` — the literals of a text.
* `isToken_leaf` — a literal that can be written is read back.
* `tokenize_leaf` — **literals are read back alone, in any dialect.**
-/

namespace SqlSyntax

/-- The node that a literal or a parameter is read as. -/
def TokenKind.leaf? : TokenKind → Option Node
  | .param n => some (.param n)
  | k => k.constant?.map Node.const

variable {d : Dialect} {start : Nat} {c : Char} {cs : List Char}

/-! ### What a rule reads -/

/-- A literal is one that can be written, or an error is noted where it starts. -/
def Reading.IsMarked (start : Nat) (r : Reading) : Prop :=
  r.kind.leaf?.isSome = true →
    r.kind.IsRead ∨ ∃ n ∈ r.notes, n.problem.severity = .error ∧ n.offset = start

namespace Reading.IsMarked

variable {r : Reading}

theorem of_isRead (h : r.kind.IsRead) : r.IsMarked start :=
  fun _ => .inl h

theorem of_leaf (h : r.kind.leaf? = none) : r.IsMarked start := by
  intro hleaf
  rw [h] at hleaf
  cases hleaf

/-- All notes are on the place where the token starts. -/
theorem of_isFine (h : r.IsFine) (hplace : ∀ n ∈ r.notes, n.offset = start) :
    r.IsMarked start := by
  intro _
  by_cases hquiet : ∀ n ∈ r.notes, n.problem.severity = .warning
  · exact .inl (h hquiet)
  · push Not at hquiet
    obtain ⟨n, hn, hseverity⟩ := hquiet
    refine .inr ⟨n, hn, ?_, hplace n hn⟩
    cases hproblem : n.problem.severity with
    | warning => exact absurd hproblem hseverity
    | error => rfl

theorem ite {p : Prop} [Decidable p] {a b : Reading} (ha : p → a.IsMarked start)
    (hb : ¬ p → b.IsMarked start) : (if p then a else b).IsMarked start := by
  split
  · next h => exact ha h
  · next h => exact hb h

end Reading.IsMarked

theorem isMarked_unfinished {problem : LexicalProblem} {notes : List Note} :
    (unfinished start problem cs notes).IsMarked start :=
  .of_leaf rfl

theorem isMarked_readWord : (readWord d start cs).IsMarked start := by
  unfold readWord
  dsimp only
  split <;> exact .of_leaf rfl

theorem isMarked_readQuotedName : (readQuotedName d start cs).IsMarked start := by
  unfold readQuotedName
  split
  · exact isMarked_unfinished
  · exact .of_leaf rfl

theorem isMarked_readPlainString {intro : Nat} :
    (readPlainString start intro cs).IsMarked start := by
  unfold readPlainString
  split
  · exact isMarked_unfinished
  · exact .of_isRead trivial

theorem isMarked_readEscapeString {warn : Bool} {intro : Nat} :
    (readEscapeString warn start intro cs).IsMarked start := by
  unfold readEscapeString
  exact .ite (fun _ => .of_isRead trivial) fun _ => isMarked_unfinished

theorem isMarked_readString : (readString d start cs).IsMarked start :=
  .ite (fun _ => isMarked_readPlainString) fun _ => isMarked_readEscapeString

theorem isMarked_readEscapedName : (readEscapedName start cs).IsMarked start := by
  unfold readEscapedName
  split
  · exact isMarked_unfinished
  · exact .of_leaf rfl

theorem isMarked_readEscapedString : (readEscapedString d start cs).IsMarked start := by
  unfold readEscapedString
  split
  · exact isMarked_unfinished
  · exact .of_leaf rfl

theorem offset_digitNotes {radix : Nat} {problem : Char → LexicalProblem} {body : List Char} :
    ∀ n ∈ digitNotes start radix problem body, n.offset = start := by
  unfold digitNotes
  cases body.find? fun c => !isDigitOf radix c with
  | none => exact nofun
  | some c => exact List.forall_mem_singleton.mpr rfl

theorem isMarked_readBinary : (readBinary start cs).IsMarked start := by
  refine .of_isFine isFine_readBinary ?_
  unfold readBinary
  split
  · exact List.forall_mem_singleton.mpr rfl
  · exact offset_digitNotes

theorem isMarked_readHex : (readHex start cs).IsMarked start := by
  refine .of_isFine isFine_readHex ?_
  unfold readHex
  split
  · exact List.forall_mem_singleton.mpr rfl
  · exact offset_digitNotes

/-- A note that is taken in some cases only. -/
theorem offset_ite {p : Prop} [Decidable p] {problem : LexicalProblem} :
    ∀ n ∈ if p then ([] : List Note) else [⟨problem, start⟩], n.offset = start := by
  split
  · exact nofun
  · exact List.forall_mem_singleton.mpr rfl

theorem isMarked_readParam (hcs : cs.head?.any Char.isDigit = true) :
    (readParam start (c :: cs)).IsMarked start := by
  refine .of_isFine (isFine_readParam hcs) ?_
  unfold readParam
  dsimp only
  split
  · exact offset_ite
  · exact List.forall_mem_cons.mpr ⟨rfl, offset_ite⟩

theorem isMarked_readDollar : (readDollar start (c :: cs)).IsMarked start := by
  unfold readDollar
  refine .ite isMarked_readParam fun _ => ?_
  split
  · exact .of_leaf rfl
  · dsimp only
    split
    · exact isMarked_unfinished
    · exact .of_isRead trivial

theorem isMarked_readNumber
    (hc : c.isDigit = true ∨ c = '.' ∧ cs.head?.any Char.isDigit = true) :
    (readNumber start (c :: cs)).IsMarked start := by
  refine .of_isFine (isFine_readNumber hc) ?_
  unfold readNumber
  exact offset_ite

theorem leaf?_operatorKind (op : String) : (operatorKind op).leaf? = none := by
  unfold operatorKind
  split <;> rfl

theorem leaf?_symbolKind (c : Char) : (symbolKind c).leaf? = none := by
  unfold symbolKind
  repeat' split
  all_goals rfl

/-- A rule gives no literal but those that can be written, or it notes an error. -/
theorem readToken_isMarked : (readToken d start c cs).IsMarked start := by
  have hrule := readBy_readToken d start c cs
  generalize readToken d start c cs = r at hrule ⊢
  cases hrule with
  | string => exact isMarked_readString
  | quotedName => exact isMarked_readQuotedName
  | dollar => exact isMarked_readDollar
  | escapeString => exact isMarked_readEscapeString
  | plainString => exact isMarked_readPlainString
  | binary => exact isMarked_readBinary
  | hex => exact isMarked_readHex
  | escapedName => exact isMarked_readEscapedName
  | escapedString => exact isMarked_readEscapedString
  | word => exact isMarked_readWord
  | number hc => exact isMarked_readNumber hc
  | pair hk =>
    simp only [List.mem_cons, List.not_mem_nil, or_false] at hk
    rcases hk with rfl | rfl | rfl <;> exact .of_leaf rfl
  | operator => exact .of_leaf (leaf?_operatorKind _)
  | symbol => exact .of_leaf (leaf?_symbolKind c)

/-! ### The literals of a text -/

/-- A literal is one that can be written, or one of the notes is on an error where it
starts. -/
def Lexeme.IsMarked (notes : List Note) (l : Lexeme) : Prop :=
  l.kind.leaf?.isSome = true →
    l.kind.IsRead ∨ ∃ n ∈ notes, n.problem.severity = .error ∧ n.offset = l.token.span.start

theorem Lexeme.IsMarked.mono {notes notes' : List Note} {l : Lexeme} (h : l.IsMarked notes)
    (hsub : ∀ n ∈ notes, n ∈ notes') : l.IsMarked notes' :=
  fun hleaf => (h hleaf).imp_right fun ⟨n, hn, hnote⟩ => ⟨n, hsub n hn, hnote⟩

theorem isMarked_rawLexemes (source : List Char) :
    ∀ l ∈ rawLexemes d source, l.IsMarked l.notes := by
  refine forall_rawLexemesFrom (P := fun l => l.IsMarked l.notes) (fun offset cs => ?_)
    (fun _ _ hleaf => absurd hleaf Bool.false_ne_true) _ 0 source
  rcases firstLexeme_cases d offset cs with ⟨notes, heq⟩ | ⟨n, c, rest, -, -, -, heq⟩
  · rw [heq]
    exact fun hleaf => absurd hleaf Bool.false_ne_true
  · rw [heq]
    exact readToken_isMarked

theorem leaf?_aheadKind (k : Keyword) (next : Option Keyword) : (aheadKind k next).leaf? = none := by
  unfold aheadKind
  split <;> rfl

theorem isRead_decodedKind_of_leaf {k : TokenKind} {escape : Char} (hk : isEscaped k = true)
    (h : (decodedKind d start escape k).1.leaf?.isSome = true) :
    (decodedKind d start escape k).1.IsRead := by
  cases k with
  | escapedString body => trivial
  | escapedName body => cases h
  | _ => cases hk

/-- Resolving leaves literals as they are, and makes only strings. -/
theorem isMarked_resolve {notes : List Note} (looked : Bool) (ls : List Lexeme)
    (h : ∀ l ∈ ls, l.IsMarked notes) : ∀ l ∈ resolve d looked ls, l.IsMarked notes := by
  induction looked, ls using resolve_induction with
  | nil looked => exact nofun
  | cons looked l ls ih =>
    have htail (looked : Bool) (n : Nat) : ∀ l ∈ resolve d looked (ls.drop n), l.IsMarked notes :=
      ih looked n fun l' hl' => h l' (List.mem_cons_of_mem l (List.mem_of_mem_drop hl'))
    rcases lexeme_cases l with ⟨key, hkey, hahead⟩ | hescaped | ⟨hkey, hescaped⟩
    · rw [resolve_keyword hkey hahead, List.forall_mem_cons]
      refine ⟨fun hleaf => ?_, htail true 0⟩
      rw [Lexeme.kind, leaf?_aheadKind] at hleaf
      cases hleaf
    · rw [resolve_escaped hescaped, List.forall_mem_cons]
      exact ⟨fun hleaf => .inl (isRead_decodedKind_of_leaf hescaped hleaf), htail _ _⟩
    · rw [resolve_plain hkey hescaped, List.forall_mem_cons]
      exact ⟨h l List.mem_cons_self, htail false 0⟩

/-- A literal of a text is one that can be written, or there is an error where it starts. -/
theorem isMarked_lexemes (source : List Char) :
    ∀ l ∈ lexemes d source, l.IsMarked ((lexemes d source).flatMap Lexeme.notes) := by
  refine isMarked_resolve false _ fun l hl => ?_
  refine (isMarked_rawLexemes source l hl).mono fun n hn => ?_
  exact (notes_sublist_resolve d false _).subset (List.mem_flatMap.mpr ⟨l, hl, hn⟩)

/-! ### Tokens that stand alone -/

/-- A token that is the whole text. -/
def TokenKind.alone (k : TokenKind) (text : String) : List Token × Diagnostics :=
  let stop := byteLength text.toList
  ([⟨k, ⟨0, stop⟩⟩, ⟨.eof, ⟨stop, stop⟩⟩], [])

/-- A text that one token takes has no other raw token, whatever is noted on it. -/
theorem rawLexemes_alone {k : TokenKind} {notes : List Note} (hk : k ≠ .eof)
    (hblank : isBlank c = false) (hcomment : startsComment (c :: cs) = false)
    (hread : readToken d 0 c cs = ⟨k, (c :: cs).length, notes⟩) :
    rawLexemes d (c :: cs) = [⟨⟨k, ⟨0, byteLength (c :: cs)⟩⟩, notes⟩,
      ⟨⟨.eof, ⟨byteLength (c :: cs), byteLength (c :: cs)⟩⟩, []⟩] := by
  have h := rawLexemes_of_readToken (t := []) hk hblank (by rwa [List.append_nil])
    (by rwa [List.append_nil])
  rw [List.append_nil] at h
  rw [h]
  simp [rawLexemes, rawLexemesFrom, firstLexeme, gap, gapFrom, endLexeme, Lexeme.shift]

/-- A keyword that looks ahead stays what it is at the end of a text. -/
theorem aheadKind_none (k : Keyword) : aheadKind k none = .keyword k := by
  rw [aheadKind]
  all_goals exact fun _ => nofun

/-- Nothing is resolved where nothing follows, but for Unicode escapes. -/
theorem resolve_alone {l e : Lexeme} (hl : isEscaped l.kind = false) (hkind : e.kind = .eof)
    (hnotes : e.notes = []) : resolve d false [l, e] = [l, e] := by
  have hend (looked : Bool) : resolve d looked [e] = [e] := by
    rw [resolve_plain (by rw [hkind]; exact nofun) (by rw [hkind]; rfl), Lexeme.newNotes, hnotes,
      ite_self, ← hnotes]
    rfl
  rcases lexeme_cases l with ⟨key, hkey, hahead⟩ | hescaped | ⟨hkey, -⟩
  · -- a keyword that looks ahead sees the end
    have hnone : aheadKind key (e.kind.keyword?) = l.kind := by
      rw [hkind, keyword?_eq_some.mp hkey]
      exact aheadKind_none key
    rw [resolve_keyword hkey hahead, hend, List.head?_cons, Option.bind_some, hnone,
      Option.elim_some, hnotes, List.append_nil]
    rfl
  · rw [hl] at hescaped
    cases hescaped
  · rw [resolve_plain hkey hl, hend]
    rfl

/-- What is read as a token is the only raw token of a text. -/
theorem IsToken.rawLexemes_eq {k : TokenKind} {text : String} (h : IsToken d text.toList k) :
    rawLexemes d text.toList = [⟨⟨k, ⟨0, byteLength text.toList⟩⟩, []⟩,
      ⟨⟨.eof, ⟨byteLength text.toList, byteLength text.toList⟩⟩, []⟩] := by
  obtain ⟨hk, c, cs, htext, hblank, hcomment, hread⟩ := h
  rw [htext] at hread ⊢
  rw [List.append_nil] at hcomment hread
  exact rawLexemes_alone (TokenKind.ne_eof_of_isInner hk) hblank hcomment (hread 0)

theorem IsToken.tokenize_ofRaw {k : TokenKind} {text : String} (h : IsToken d text.toList k) :
    (TokenStream.ofRaw d text.toList).tokenize = k.alone text := by
  rw [TokenStream.ofRaw, h.rawLexemes_eq]
  rfl

/-- What is read as a token is the only token of a text. -/
theorem IsToken.tokenize {k : TokenKind} {text : String} (h : IsToken d text.toList k) :
    (TokenStream.ofText d text.toList).tokenize = k.alone text := by
  have hescaped : isEscaped k = false := Bool.not_eq_true' _ ▸ (Bool.and_eq_true_iff.mp h.inner).2
  rw [TokenStream.ofText, lexemes, h.rawLexemes_eq, resolve_alone hescaped rfl rfl]
  rfl

theorem toList_text_const (v : Literal) : (Node.const v).text.toList = v.text.toList := by
  rw [Node.text, toList_join, Node.const_pieces, charsOf_cons, charsOf_nil, List.append_nil]
  rfl

theorem append_eq_ofList (c : Char) (s : String) :
    String.singleton c ++ s = String.ofList (c :: s.toList) := by
  rw [← String.toList_inj, String.toList_append, String.toList_ofList, String.toList_singleton]
  rfl

/-- **A literal that can be written is read back.** -/
theorem isToken_leaf {k : TokenKind} {n : Node} (hn : k.leaf? = some n) (hk : k.IsRead) :
    IsToken d n.text.toList k := by
  cases k with
  | integer v =>
    cases hn
    rw [toList_text_const]
    exact isToken_integer hk
  | float s =>
    cases hn
    have htoken := isToken_float (d := d) hk
    rw [String.ofList_toList] at htoken
    rwa [toList_text_const]
  | string s =>
    cases hn
    rw [toList_text_const]
    exact isToken_quoteString s
  | binary s =>
    cases hn
    have htoken := isToken_binary (d := d) hk
    rw [String.ofList_toList] at htoken
    have hbits : "b" ++ s = String.ofList ('b' :: s.toList) := append_eq_ofList 'b' s
    rwa [toList_text_const, hbits, toList_text_binary]
  | hex s =>
    cases hn
    have htoken := isToken_hex (d := d) hk
    rw [String.ofList_toList] at htoken
    have hbits : "x" ++ s = String.ofList ('x' :: s.toList) := append_eq_ofList 'x' s
    rwa [toList_text_const, hbits, toList_text_hex]
  | param v =>
    cases hn
    rw [Node.text, toList_join, Node.param_pieces, charsOf_cons, charsOf_nil, List.append_nil,
      toList_text_param]
    exact begins_param hk nofun
  | _ => cases hn

/-- **Literals are read back alone, in any dialect.**  Take a literal or parameter of a text
that has no error where it starts.  Its node is written as a text whose only token is of the
same kind and has the same value, whatever the dialect is now, and nothing is recorded.  The
text of a string constant is read as that string, whatever the string. -/
theorem tokenize_leaf (d d' : Dialect) :
    (∀ source, ∀ t ∈ (TokenStream.ofText d source).tokenize.1, ∀ n, t.kind.leaf? = some n →
      (∀ g ∈ (TokenStream.ofText d source).tokenize.2, g.severity = .error →
        g.location ≠ some ((LineIndex.ofText source).locate t.span.start)) →
      (TokenStream.ofText d' n.text.toList).tokenize = t.kind.alone n.text) ∧
    ∀ s, (TokenStream.ofText d' (quoteString s).toList).tokenize
      = (TokenKind.string s).alone (quoteString s) := by
  refine ⟨fun source t ht n hn hquiet => ?_, fun s => (isToken_quoteString s).tokenize⟩
  refine (isToken_leaf hn ?_).tokenize
  rw [TokenStream.tokenize_of_endsOnce (endsOnce_lexemes d source)] at ht hquiet
  obtain ⟨l, hl, rfl⟩ := List.mem_map.mp ht
  have hleaf : l.kind.leaf?.isSome = true := by
    rw [Lexeme.kind, hn]
    rfl
  rcases isMarked_lexemes source l hl hleaf with hread | ⟨m, hm, hseverity, hoffset⟩
  · exact hread
  · -- the note gives a diagnostic where the literal starts
    refine absurd ?_ (hquiet (m.diagnostic (LineIndex.ofText source)) ?_ hseverity)
    · rw [Note.diagnostic, hoffset]
    · obtain ⟨l', hl', hm⟩ := List.mem_flatMap.mp hm
      exact List.mem_flatMap.mpr ⟨l', hl', List.mem_map.mpr ⟨m, hm, rfl⟩⟩

/-- A backslash is kept in a dialect where it escapes, and in spite of an error further on. -/
theorem tokenize_leaf_backslash :
    let source := "E'\\\\x' B'2'".toList
    let t : Token := ⟨.string "\\x", ⟨0, 6⟩⟩
    let escaping : Dialect := ⟨"escaping", false, true, 63⟩
    t ∈ (TokenStream.ofText .postgres source).tokenize.1 ∧
      (∀ g ∈ (TokenStream.ofText .postgres source).tokenize.2, g.severity = .error →
        g.location ≠ some ((LineIndex.ofText source).locate t.span.start)) ∧
      (TokenStream.ofText escaping (Node.const (.string "\\x")).text.toList).tokenize
        = (TokenKind.string "\\x").alone (Node.const (.string "\\x")).text := by
  intro source t escaping
  have ht : t ∈ (TokenStream.ofText .postgres source).tokenize.1 := by decide +kernel
  have hquiet : ∀ g ∈ (TokenStream.ofText .postgres source).tokenize.2, g.severity = .error →
      g.location ≠ some ((LineIndex.ofText source).locate t.span.start) := by
    decide +kernel
  exact ⟨ht, hquiet, (tokenize_leaf .postgres escaping).1 source t ht _ rfl hquiet⟩

end SqlSyntax
