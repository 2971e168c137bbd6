import SqlSyntax.Lexeme.Raw
import SqlSyntax.Proofs.Text.Characters

/-!
# Which rule reads a token

The first characters of a token say which rule reads it.  A letter may start a word or the
mark of a string constant; what tells them apart is a quote, or an ampersand and a quote,
behind it.

## Main definitions

* `ReadBy d start c cs r` — a rule reads `r`, used where it may be.
* `KindBy c cs k` — a rule gives a token of the kind `k` there.

## Main results

* `readBy_readToken` — **every token is read by one of the rules.**
* `kindBy_readToken` — **which kinds of tokens there are where.**
* `readToken_word`, `readToken_number`, `readToken_operator` — the rules for words, numbers and
  operators.
* `readToken_string`, `readToken_escapeString`, … — the rules for quoted tokens.
* `readToken_param` — the rule for parameters.
-/

namespace SqlSyntax

variable {d : Dialect} {start : Nat} {c : Char} {cs : List Char}

/-! ### Classes of characters -/

theorem of_isDigit {P : Char → Prop} (h : ∀ n : Fin 128, (Char.ofNat n).isDigit = true →
    P (Char.ofNat n)) (hc : c.isDigit = true) : P c := by
  refine forall_ascii (P := fun c => c.isDigit = true → P c) h ?_ hc
  simp only [Char.isDigit, Bool.and_eq_true, decide_eq_true_eq] at hc
  have hval : c.toNat ≤ 57 := hc.2
  omega

theorem of_isOperatorChar {P : Char → Prop} [DecidablePred P]
    (h : ("~!@#^&|`?+-*/%<>=".toList.all fun c => P c) = true) (hc : isOperatorChar c = true) :
    P c :=
  of_decide_eq_true (List.all_eq_true.mp h c (List.contains_iff_mem.mp hc))

theorem ne_of_isNameStart {x : Char} (hx : isNameStart x = false) (hc : isNameStart c = true) :
    c ≠ x := by
  rintro rfl
  rw [hc] at hx
  cases hx

theorem isBlank_of_isNameStart (hc : isNameStart c = true) : isBlank c = false := by
  simp only [isBlank, Bool.or_eq_false_iff, beq_eq_false_iff_ne]
  exact ⟨⟨⟨⟨⟨ne_of_isNameStart rfl hc, ne_of_isNameStart rfl hc⟩, ne_of_isNameStart rfl hc⟩,
    ne_of_isNameStart rfl hc⟩, ne_of_isNameStart rfl hc⟩, ne_of_isNameStart rfl hc⟩

/-! ### The rules -/

/-- The rules, with the first characters that each of them is used for. -/
inductive ReadBy (d : Dialect) (start : Nat) (c : Char) (cs : List Char) : Reading → Prop
  | string (hc : c = '\'') : ReadBy d start c cs (readString d start (c :: cs))
  | quotedName (hc : c = '"') : ReadBy d start c cs (readQuotedName d start (c :: cs))
  | dollar (hc : c = '$') : ReadBy d start c cs (readDollar start (c :: cs))
  | escapeString (hc : isLetter 'e' c = true) (hnext : cs.head? = some '\'') :
    ReadBy d start c cs (readEscapeString false start 2 (c :: cs))
  | plainString (hc : isLetter 'n' c = true) (hnext : cs.head? = some '\'') :
    ReadBy d start c cs (readPlainString start 2 (c :: cs))
  | binary (hc : isLetter 'b' c = true) (hnext : cs.head? = some '\'') :
    ReadBy d start c cs (readBinary start (c :: cs))
  | hex (hc : isLetter 'x' c = true) (hnext : cs.head? = some '\'') :
    ReadBy d start c cs (readHex start (c :: cs))
  | escapedName (hc : isLetter 'u' c = true) (hnext : cs.head? = some '&')
    (hquote : (cs.drop 1).head? = some '"') :
    ReadBy d start c cs (readEscapedName start (c :: cs))
  | escapedString (hc : isLetter 'u' c = true) (hnext : cs.head? = some '&')
    (hquote : (cs.drop 1).head? = some '\'') :
    ReadBy d start c cs (readEscapedString d start (c :: cs))
  | word (hc : isNameStart c = true) : ReadBy d start c cs (readWord d start (c :: cs))
  | number (hc : c.isDigit = true ∨ c = '.' ∧ cs.head?.any Char.isDigit = true) :
    ReadBy d start c cs (readNumber start (c :: cs))
  | pair {k : TokenKind} (hk : k ∈ [.dotDot, .typecast, .colonEquals]) {x : Char}
    (hx : x ∈ ['.', ':', '=']) (hnext : cs.head? = some x) : ReadBy d start c cs ⟨k, 2, []⟩
  | operator (hc : isOperatorChar c = true) : ReadBy d start c cs (readOperator (c :: cs))
  | symbol (hc : isOperatorChar c = false) : ReadBy d start c cs ⟨symbolKind c, 1, []⟩

theorem ReadBy.ite {p : Prop} [Decidable p] {r r' : Reading} (h : p → ReadBy d start c cs r)
    (h' : ¬p → ReadBy d start c cs r') : ReadBy d start c cs (if p then r else r') := by
  split
  · exact h ‹_›
  · exact h' ‹_›

/-- **Every token is read by one of the rules.** -/
theorem readBy_readToken (d : Dialect) (start : Nat) (c : Char) (cs : List Char) :
    ReadBy d start c cs (readToken d start c cs) := by
  unfold readToken
  dsimp only
  refine .ite .string fun _ => .ite .quotedName fun _ => .ite .dollar fun _ => ?_
  refine .ite (fun h => .escapeString h.1 h.2) fun _ => ?_
  refine .ite (fun h => .plainString h.1 h.2) fun _ => ?_
  refine .ite (fun h => .binary h.1 h.2) fun _ => ?_
  refine .ite (fun h => .hex h.1 h.2) fun _ => ?_
  refine .ite (fun h => .escapedName h.1 h.2.1 h.2.2) fun _ => ?_
  refine .ite (fun h => .escapedString h.1 h.2.1 h.2.2) fun _ => ?_
  refine .ite .word fun _ => .ite .number fun _ => ?_
  refine .ite (fun h => .pair (by decide) (by decide) h.2) fun _ => ?_
  refine .ite (fun h => .pair (by decide) (by decide) h.2) fun _ => ?_
  refine .ite (fun h => .pair (by decide) (by decide) h.2) fun _ => ?_
  exact .ite .operator fun h => .symbol (Bool.eq_false_iff.mpr h)

/-! ### The kinds of tokens -/

/-- The kinds of words and quoted tokens, of what a dollar sign starts, and the end that a literal
without its own gives. -/
def TokenKind.isText : TokenKind → Bool
  | .keyword _ | .name _ | .string _ | .binary _ | .hex _ | .param _ | .escapedName _
  | .escapedString _ | .other _ | .eof => true
  | _ => false

theorem isText_readWord : (readWord d start cs).kind.isText = true := by
  unfold readWord
  dsimp only
  split <;> rfl

theorem isText_readQuotedName : (readQuotedName d start cs).kind.isText = true := by
  unfold readQuotedName
  split <;> rfl

theorem isText_readPlainString {intro : Nat} :
    (readPlainString start intro cs).kind.isText = true := by
  unfold readPlainString
  split <;> rfl

theorem isText_readEscapeString {warn : Bool} {intro : Nat} :
    (readEscapeString warn start intro cs).kind.isText = true := by
  unfold readEscapeString
  dsimp only
  split <;> rfl

theorem isText_readString : (readString d start cs).kind.isText = true := by
  unfold readString
  split
  · exact isText_readPlainString
  · exact isText_readEscapeString

theorem isText_readBinary : (readBinary start cs).kind.isText = true := by
  unfold readBinary
  split <;> rfl

theorem isText_readHex : (readHex start cs).kind.isText = true := by
  unfold readHex
  split <;> rfl

theorem isText_readEscapedName : (readEscapedName start cs).kind.isText = true := by
  unfold readEscapedName
  split <;> rfl

theorem isText_readEscapedString : (readEscapedString d start cs).kind.isText = true := by
  unfold readEscapedString
  split <;> rfl

theorem isText_readDollar : (readDollar start cs).kind.isText = true := by
  unfold readDollar
  split
  · unfold readParam
    dsimp only
    split <;> rfl
  · split
    · rfl
    · dsimp only
      split <;> rfl

/-- The kinds of tokens, with the first characters that a token of the kind starts with. -/
inductive KindBy (c : Char) (cs : List Char) : TokenKind → Prop
  | text {k : TokenKind} (hk : k.isText = true) : KindBy c cs k
  | integer (n : Int) (hc : c.isDigit = true ∨ c = '.' ∧ cs.head?.any Char.isDigit = true) :
    KindBy c cs (.integer n)
  | float (s : String) (hc : c.isDigit = true ∨ c = '.' ∧ cs.head?.any Char.isDigit = true) :
    KindBy c cs (.float s)
  | pair {k : TokenKind} (hk : k ∈ [.dotDot, .typecast, .colonEquals]) : KindBy c cs k
  | operator (op : String) (hc : isOperatorChar c = true) : KindBy c cs (operatorKind op)
  | symbol (hc : isOperatorChar c = false) : KindBy c cs (symbolKind c)

/-- **Numbers and operators are read where they start, and nowhere else.** -/
theorem kindBy_readToken (d : Dialect) (start : Nat) (c : Char) (cs : List Char) :
    KindBy c cs (readToken d start c cs).kind := by
  have hrule := readBy_readToken d start c cs
  generalize readToken d start c cs = r at hrule ⊢
  cases hrule with
  | string => exact .text isText_readString
  | quotedName => exact .text isText_readQuotedName
  | dollar => exact .text isText_readDollar
  | escapeString => exact .text isText_readEscapeString
  | plainString => exact .text isText_readPlainString
  | binary => exact .text isText_readBinary
  | hex => exact .text isText_readHex
  | escapedName => exact .text isText_readEscapedName
  | escapedString => exact .text isText_readEscapedString
  | word => exact .text isText_readWord
  | number hc =>
    unfold readNumber
    dsimp only
    split
    · exact .float _ hc
    · split
      · exact .integer _ hc
      · exact .float _ hc
  | pair hk => exact .pair hk
  | operator hc => exact .operator _ hc
  | symbol hc => exact .symbol hc

/-! ### The choice -/

/-- What stands behind `c` does not make it the mark of a constant. -/
structure Unmarked (c : Char) (cs : List Char) : Prop where
  quote : ∀ l ∈ ['e', 'n', 'b', 'x'], isLetter l c = true → cs.head? ≠ some '\''
  ampersand : isLetter 'u' c = true → cs.head? = some '&' →
    ∀ q ∈ ['"', '\''], (cs.drop 1).head? ≠ some q

theorem readToken_word (hc : isNameStart c = true) (hcs : Unmarked c cs) :
    readToken d start c cs = readWord d start (c :: cs) := by
  have hquote {l : Char} (hl : l ∈ ['e', 'n', 'b', 'x']) :
      ¬ (isLetter l c = true ∧ cs.head? = some '\'') :=
    fun h => hcs.quote l hl h.1 h.2
  have hampersand {q : Char} (hq : q ∈ ['"', '\'']) :
      ¬ (isLetter 'u' c = true ∧ cs.head? = some '&' ∧ (cs.drop 1).head? = some q) :=
    fun h => hcs.ampersand h.1 h.2.1 q hq h.2.2
  unfold readToken
  dsimp only
  rw [if_neg (ne_of_isNameStart rfl hc), if_neg (ne_of_isNameStart rfl hc),
    if_neg (ne_of_isNameStart rfl hc), if_neg (hquote (by decide)), if_neg (hquote (by decide)),
    if_neg (hquote (by decide)), if_neg (hquote (by decide)), if_neg (hampersand (by decide)),
    if_neg (hampersand (by decide)), if_pos hc]

/-- A character that starts neither a name nor a quoted token. -/
structure Bare (c : Char) : Prop where
  quote : c ≠ '\''
  doubleQuote : c ≠ '"'
  dollar : c ≠ '$'
  letter : ∀ l ∈ ['e', 'n', 'b', 'x', 'u'], isLetter l c = false
  nameStart : isNameStart c = false

theorem readToken_bare (hc : Bare c) : readToken d start c cs =
    if c.isDigit ∨ (c = '.' ∧ cs.head?.any Char.isDigit) then readNumber start (c :: cs)
    else if c = '.' ∧ cs.head? = some '.' then ⟨.dotDot, 2, []⟩
    else if c = ':' ∧ cs.head? = some ':' then ⟨.typecast, 2, []⟩
    else if c = ':' ∧ cs.head? = some '=' then ⟨.colonEquals, 2, []⟩
    else if isOperatorChar c then readOperator (c :: cs)
    else ⟨symbolKind c, 1, []⟩ := by
  have hletter {l : Char} (hl : l ∈ ['e', 'n', 'b', 'x', 'u']) : ¬ isLetter l c = true := by
    rw [hc.letter l hl]
    exact Bool.false_ne_true
  unfold readToken
  dsimp only
  rw [if_neg hc.quote, if_neg hc.doubleQuote, if_neg hc.dollar,
    if_neg fun h => hletter (by decide) h.1, if_neg fun h => hletter (by decide) h.1,
    if_neg fun h => hletter (by decide) h.1, if_neg fun h => hletter (by decide) h.1,
    if_neg fun h => hletter (by decide) h.1, if_neg fun h => hletter (by decide) h.1,
    if_neg (by rw [hc.nameStart]; exact Bool.false_ne_true)]

instance : DecidablePred Bare := fun c =>
  decidable_of_iff (c ≠ '\'' ∧ c ≠ '"' ∧ c ≠ '$' ∧
      (['e', 'n', 'b', 'x', 'u'].all fun l => isLetter l c = false) = true ∧ isNameStart c = false)
    ⟨fun h => ⟨h.1, h.2.1, h.2.2.1,
        fun l hl => of_decide_eq_true (List.all_eq_true.mp h.2.2.2.1 l hl), h.2.2.2.2⟩,
      fun h => ⟨h.quote, h.doubleQuote, h.dollar,
        List.all_eq_true.mpr fun l hl => decide_eq_true (h.letter l hl), h.nameStart⟩⟩

theorem readToken_number (hc : c.isDigit = true ∨ c = '.' ∧ cs.head?.any Char.isDigit = true) :
    readToken d start c cs = readNumber start (c :: cs) := by
  have hbare : Bare c := by
    rcases hc with hc | ⟨rfl, -⟩
    · exact of_isDigit (by decide) hc
    · decide
  rw [readToken_bare hbare, if_pos hc]

theorem readToken_operator (hc : isOperatorChar c = true) :
    readToken d start c cs = readOperator (c :: cs) := by
  have hbare : Bare c := of_isOperatorChar (by decide) hc
  have hother : c.isDigit = false ∧ c ≠ '.' ∧ c ≠ ':' :=
    of_isOperatorChar (P := fun c => c.isDigit = false ∧ c ≠ '.' ∧ c ≠ ':') (by decide) hc
  rw [readToken_bare hbare, if_neg, if_neg fun h => hother.2.1 h.1, if_neg fun h => hother.2.2 h.1,
    if_neg fun h => hother.2.2 h.1, if_pos hc]
  rintro (h | h)
  · rw [hother.1] at h
    cases h
  · exact hother.2.1 h.1

theorem readToken_string : readToken d start '\'' cs = readString d start ('\'' :: cs) :=
  rfl

theorem readToken_escapeString (hc : c = 'E' ∨ c = 'e') :
    readToken d start c ('\'' :: cs) = readEscapeString false start 2 (c :: '\'' :: cs) := by
  rcases hc with rfl | rfl <;> rfl

theorem readToken_binary :
    readToken d start 'B' ('\'' :: cs) = readBinary start ('B' :: '\'' :: cs) :=
  rfl

theorem readToken_hex : readToken d start 'X' ('\'' :: cs) = readHex start ('X' :: '\'' :: cs) :=
  rfl

theorem readToken_quotedName : readToken d start '"' cs = readQuotedName d start ('"' :: cs) :=
  rfl

theorem readToken_param (hcs : cs.head?.any Char.isDigit = true) :
    readToken d start '$' cs = readParam start ('$' :: cs) := by
  have hdollar : readToken d start '$' cs = readDollar start ('$' :: cs) := rfl
  rw [hdollar, readDollar]
  exact if_pos hcs

end SqlSyntax
