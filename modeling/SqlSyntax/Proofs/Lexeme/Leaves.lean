import SqlSyntax.Proofs.Expression.Plain
import SqlSyntax.Proofs.Lexeme.Reread
import SqlSyntax.Proofs.Lexeme.Resolving
import SqlSyntax.Proofs.Lexeme.Taken
import SqlSyntax.Proofs.Number.Int4

/-!
# The tokens of a text without errors

A text can only contain names, numbers and operators of some kind: names are neither empty
nor too long, integers have no sign and fit 32 bits, and an operator is read as such again.
Where a rule has to give a token that is not like that, it leaves a note on an error.

## Main definitions

* `Reading.IsFine` — a rule gives a token that a text can contain, or notes an error.

## Main results

* `readToken_isFine` — every rule does.
* `isRead_lexemes` — **the tokens of a text without errors.**
-/

namespace SqlSyntax

/-- A token without notes on errors is one that a text can contain. -/
def Reading.IsFine (r : Reading) : Prop :=
  (∀ n ∈ r.notes, n.problem.severity = .warning) → r.kind.IsRead

theorem Reading.IsFine.of_isRead {r : Reading} (h : r.kind.IsRead) : r.IsFine :=
  fun _ => h

theorem Reading.IsFine.of_note {r : Reading} {n : Note} (hn : n ∈ r.notes)
    (hproblem : n.problem.severity = .error) : r.IsFine := by
  intro hnotes
  rw [hnotes n hn] at hproblem
  cases hproblem

theorem Reading.IsFine.ite {p : Prop} [Decidable p] {a b : Reading} (ha : p → a.IsFine)
    (hb : ¬ p → b.IsFine) : (if p then a else b).IsFine := by
  split
  · next h => exact ha h
  · next h => exact hb h

variable {d : Dialect} {start : Nat} {c : Char} {cs : List Char}

theorem isFine_unfinished {problem : LexicalProblem} {notes : List Note} :
    (unfinished start problem cs notes).IsFine :=
  .of_isRead trivial

/-! ### Names -/

theorem takeBytes_ne_nil {n : Nat} (hn : 4 ≤ n) {name : List Char} (hname : name ≠ []) :
    takeBytes n name ≠ [] := by
  cases name with
  | nil => exact absurd rfl hname
  | cons c name =>
    rw [takeBytes, if_pos ((Char.utf8Size_le_four c).trans hn)]
    exact List.cons_ne_nil _ _

/-- What is kept of a name is a name. -/
theorem isName_limitName {name : List Char} (hname : name ≠ []) :
    IsName (limitName .postgres start name).1 := by
  have hofList {l : List Char} (hl : l ≠ []) : String.ofList l ≠ "" := fun hempty =>
    hl (String.ofList_eq_empty_iff.mp hempty)
  unfold limitName
  by_cases hfits : byteLength name ≤ Dialect.postgres.maxNameLength
  · rw [if_pos hfits]
    refine ⟨hofList hname, ?_⟩
    rwa [String.toList_ofList]
  · rw [if_neg hfits]
    refine ⟨hofList (takeBytes_ne_nil (by decide) hname), ?_⟩
    rw [String.toList_ofList]
    exact byteLength_takeBytes_le _ name

theorem isFine_readWord (hc : isNamePart c = true) : (readWord .postgres start (c :: cs)).IsFine := by
  unfold readWord
  dsimp only
  split
  · exact .of_isRead trivial
  · refine .of_isRead (isName_limitName ?_)
    rw [List.takeWhile_cons, if_pos hc]
    exact List.cons_ne_nil _ _

theorem isFine_readQuotedName : (readQuotedName .postgres start cs).IsFine := by
  unfold readQuotedName
  split
  · exact isFine_unfinished
  · next body n hbody =>
    by_cases hempty : body = []
    · -- a name without characters draws an error
      subst hempty
      exact .of_note (n := ⟨.emptyName, start⟩) List.mem_cons_self rfl
    · exact .of_isRead (isName_limitName hempty)

/-! ### Strings -/

theorem isFine_readPlainString {intro : Nat} : (readPlainString start intro cs).IsFine := by
  unfold readPlainString
  split
  · exact isFine_unfinished
  · exact .of_isRead trivial

theorem isFine_readEscapeString {warn : Bool} {intro : Nat} :
    (readEscapeString warn start intro cs).IsFine := by
  unfold readEscapeString
  exact .ite (fun _ => .of_isRead trivial) fun _ => isFine_unfinished

theorem isFine_readString : (readString d start cs).IsFine :=
  .ite (fun _ => isFine_readPlainString) fun _ => isFine_readEscapeString

theorem isFine_readEscapedName : (readEscapedName start cs).IsFine := by
  unfold readEscapedName
  split
  · exact isFine_unfinished
  · exact .of_isRead trivial

theorem isFine_readEscapedString : (readEscapedString d start cs).IsFine := by
  unfold readEscapedString
  split
  · exact isFine_unfinished
  · exact .of_isRead trivial

/-- Without a note on an error all characters are digits. -/
theorem isDigitOf_of_digitNotes {radix : Nat} {problem : Char → LexicalProblem} {body : List Char}
    (hproblem : ∀ c, (problem c).severity = .error)
    (h : ∀ n ∈ digitNotes start radix problem body, n.problem.severity = .warning) :
    ∀ c ∈ body, isDigitOf radix c = true := by
  intro c hc
  unfold digitNotes at h
  cases hfind : body.find? fun c => !isDigitOf radix c with
  | none =>
    have hdigit := List.find?_eq_none.mp hfind c hc
    rwa [Bool.not_eq_true, Bool.not_eq_false'] at hdigit
  | some b =>
    rw [hfind] at h
    have hwarning := h ⟨problem b, start⟩ List.mem_cons_self
    rw [hproblem] at hwarning
    cases hwarning

theorem isFine_readBinary : (readBinary start cs).IsFine := by
  unfold readBinary
  split
  · exact isFine_unfinished
  · intro hnotes
    show ∀ c ∈ (String.ofList _).toList, _
    rw [String.toList_ofList]
    exact isDigitOf_of_digitNotes (fun _ => rfl) hnotes

theorem isFine_readHex : (readHex start cs).IsFine := by
  unfold readHex
  split
  · exact isFine_unfinished
  · intro hnotes
    show ∀ c ∈ (String.ofList _).toList, _
    rw [String.toList_ofList]
    exact isDigitOf_of_digitNotes (fun _ => rfl) hnotes

/-! ### Numbers -/

namespace Int4

/-- An integer that starts neither with a blank nor with a minus sign has no sign. -/
theorem isNatural_of_parse {n : Int} (hblank : isAsciiBlank c = false) (hminus : c ≠ '-')
    (h : parse (c :: cs) = .ok n) : IsNatural n := by
  obtain ⟨⟨before, body, after, hcs, hbefore, -, hbody⟩, hrange⟩ := parse_eq_ok_iff.mp h
  refine ⟨?_, hrange⟩
  cases before with
  | cons b before =>
    -- the first character would be a blank
    obtain rfl : c = b := (List.cons.inj hcs).1
    rw [hbefore c List.mem_cons_self] at hblank
    cases hblank
  | nil =>
    cases hbody with
    | bare h => exact Int.natCast_nonneg _
    | plus h => exact Int.natCast_nonneg _
    | minus h => exact absurd (List.cons.inj hcs).1 hminus

end Int4

theorem not_blank_of_isDigit (hc : c.isDigit = true) : isAsciiBlank c = false ∧ c ≠ '-' := by
  refine ⟨?_, by rintro rfl; cases hc⟩
  simp only [isAsciiBlank, Bool.or_eq_false_iff, beq_eq_false_iff_ne]
  refine ⟨⟨⟨⟨?_, ?_⟩, ?_⟩, ?_⟩, ?_⟩ <;> rintro rfl <;> cases hc

theorem isFine_readParam (hcs : cs.head?.any Char.isDigit = true) :
    (readParam start (c :: cs)).IsFine := by
  obtain ⟨e, es, rfl⟩ : ∃ e es, cs = e :: es := by
    cases cs with
    | nil => cases hcs
    | cons e es => exact ⟨e, es, rfl⟩
  have he : e.isDigit = true := hcs
  unfold readParam
  dsimp only
  split
  · next n hn =>
    rw [List.drop_succ_cons, List.drop_zero, List.takeWhile_cons, if_pos he] at hn
    exact .of_isRead (Int4.isNatural_of_parse (not_blank_of_isDigit he).1
      (not_blank_of_isDigit he).2 hn)
  · exact .of_note (n := ⟨.paramTooLarge, start⟩) List.mem_cons_self rfl

theorem isFine_readDollar : (readDollar start (c :: cs)).IsFine := by
  unfold readDollar
  refine .ite (fun hdigit => isFine_readParam hdigit) fun _ => ?_
  split
  · exact .of_isRead trivial
  · dsimp only
    split
    · exact isFine_unfinished
    · exact .of_isRead trivial

/-- The text of a numeral begins as the text behind which it was read. -/
theorem head_numeral (hc : c.isDigit = true ∨ c = '.' ∧ cs.head?.any Char.isDigit = true) :
    ∃ cs', (c :: cs).take (numeral (c :: cs)).length = c :: cs' ∧
      (c = '.' → cs'.head?.any Char.isDigit = true) := by
  obtain ⟨n, hn⟩ : ∃ n, (numeral (c :: cs)).length = n + 1 :=
    Nat.exists_eq_succ_of_ne_zero (numeral_pos hc).ne'
  rw [hn, List.take_succ_cons]
  refine ⟨cs.take n, rfl, ?_⟩
  rintro rfl
  rcases hc with hc | ⟨-, hcs⟩
  · cases hc
  · obtain ⟨hrun, hlength⟩ := numeral_point hcs
    rwa [head?_take (by omega)]

theorem isFine_readNumber (hc : c.isDigit = true ∨ c = '.' ∧ cs.head?.any Char.isDigit = true) :
    (readNumber start (c :: cs)).IsFine := by
  obtain ⟨cs', htext, hdigit⟩ := head_numeral hc
  have hagain := numeral_take_length (c :: cs)
  have hlength : ((c :: cs).take (numeral (c :: cs)).length).length = (numeral (c :: cs)).length := by
    rw [List.length_take]
    exact min_eq_left (numeral_length_le _)
  refine .of_isRead ?_
  unfold readNumber
  dsimp only
  rw [htext] at hagain hlength ⊢
  have hfloat (h : (numeral (c :: cs)).isFloat = true ∨ (Int4.parse (c :: cs')).toOption = none) :
      TokenKind.IsRead (.float (String.ofList (c :: cs'))) := by
    show IsFloat (String.ofList _).toList
    rw [String.toList_ofList, IsFloat, hagain]
    exact ⟨hc.imp id fun hdot => ⟨congrArg some hdot.1, hdigit hdot.1⟩, hlength.symm, h⟩
  split
  · next h => exact hfloat (.inl h)
  · split
    · next n hn =>
      refine Int4.isNatural_of_parse ?_ ?_ hn
      · rcases hc with hc | ⟨rfl, -⟩
        · exact (not_blank_of_isDigit hc).1
        · rfl
      · rcases hc with hc | ⟨rfl, -⟩
        · exact (not_blank_of_isDigit hc).2
        · decide
    · next hn => exact hfloat (.inr (by rw [hn]; rfl))

/-! ### Operators -/

theorem operatorKind_op {s s' : String} (h : operatorKind s = .op s') : s' = s := by
  unfold operatorKind at h
  split at h <;> cases h
  rfl

theorem isFine_readOperator (hc : isOperatorChar c = true)
    (hcomment : startsComment (c :: cs) = false) : (readOperator (c :: cs)).IsFine := by
  refine .of_isRead ?_
  have hpos := operatorChars_pos hc hcomment
  have hnonempty : String.ofList (operatorChars (c :: cs)) ≠ "" := by
    intro hempty
    rw [String.ofList_eq_empty_iff.mp hempty] at hpos
    cases hpos
  have hwhole : operatorChars (String.ofList (operatorChars (c :: cs))).toList
      = (String.ofList (operatorChars (c :: cs))).toList := by
    rw [String.toList_ofList, operatorChars_idem]
  show (operatorKind (String.ofList (operatorChars (c :: cs)))).IsRead
  generalize String.ofList (operatorChars (c :: cs)) = op at hnonempty hwhole
  cases hkind : operatorKind op with
  | op s =>
    obtain rfl := operatorKind_op hkind
    exact ⟨⟨hnonempty, hwhole, by rw [hkind]; rfl⟩, hkind⟩
  | name | string | integer | float | binary | hex | param =>
    unfold operatorKind at hkind
    split at hkind <;> cases hkind
  | _ => trivial

theorem isRead_symbolKind (c : Char) : (symbolKind c).IsRead := by
  unfold symbolKind
  repeat' split
  all_goals trivial

/-- A rule gives a token that a text can contain, or it notes an error. -/
theorem readToken_isFine (hcomment : startsComment (c :: cs) = false) :
    (readToken .postgres start c cs).IsFine := by
  have hrule := readBy_readToken .postgres start c cs
  generalize readToken .postgres start c cs = r at hrule ⊢
  cases hrule with
  | string => exact isFine_readString
  | quotedName => exact isFine_readQuotedName
  | dollar => exact isFine_readDollar
  | escapeString => exact isFine_readEscapeString
  | plainString => exact isFine_readPlainString
  | binary => exact isFine_readBinary
  | hex => exact isFine_readHex
  | escapedName => exact isFine_readEscapedName
  | escapedString => exact isFine_readEscapedString
  | word hc => exact isFine_readWord (by rw [isNamePart, hc]; rfl)
  | number hc => exact isFine_readNumber hc
  | pair hk =>
    simp only [List.mem_cons, List.not_mem_nil, or_false] at hk
    rcases hk with rfl | rfl | rfl <;> exact .of_isRead trivial
  | operator hc => exact isFine_readOperator hc hcomment
  | symbol => exact .of_isRead (isRead_symbolKind c)

/-! ### Lexemes -/

/-- No note is on an error. -/
def Lexeme.IsQuiet (l : Lexeme) : Prop :=
  ∀ n ∈ l.notes, n.problem.severity = .warning

theorem isRead_firstLexeme {offset : Nat} (h : (firstLexeme .postgres offset cs).1.IsQuiet) :
    (firstLexeme .postgres offset cs).1.kind.IsRead := by
  rcases firstLexeme_cases .postgres offset cs with
    ⟨notes, heq⟩ | ⟨n, c, rest, hgap, hdrop, -, heq⟩
  · rw [heq]
    trivial
  · -- no comment starts behind a gap
    obtain ⟨k, -, hk, hcomment⟩ := gapStops_gapFrom hgap
    rw [Nat.zero_add] at hk
    rw [← hk, hdrop] at hcomment
    rw [heq] at h ⊢
    exact readToken_isFine hcomment h

/-! ### Resolved lexemes -/

theorem isRead_aheadKind (k : Keyword) (next : Option Keyword) : (aheadKind k next).IsRead := by
  unfold aheadKind
  split <;> trivial

/-- A literal with its escapes resolved is a token that a text can contain, or there is a
note on an error. -/
theorem isRead_decodedKind {k : TokenKind} {escape : Char} (hk : isEscaped k = true)
    (h : ∀ n ∈ (decodedKind .postgres start escape k).2, n.problem.severity = .warning) :
    (decodedKind .postgres start escape k).1.IsRead := by
  cases k with
  | escapedString body => trivial
  | escapedName body =>
    simp only [decodedKind, decodedName] at h ⊢
    refine isName_limitName fun hempty => ?_
    have hmem : (⟨.emptyName, start⟩ : Note) ∈ faultNotes start
          (Escape.decodeUnicode escape body.toList).faults
        ++ (if (Escape.decodeUnicode escape body.toList).text.isEmpty then
            [⟨.emptyName, start⟩] else [])
        ++ (limitName .postgres start (Escape.decodeUnicode escape body.toList).text).2 := by
      rw [hempty]
      exact List.mem_append_left _ (List.mem_append_right _ List.mem_cons_self)
    cases h _ hmem
  | _ => cases hk

theorem isRead_resolve (looked : Bool) (ls : List Lexeme) (hraw : ∀ l ∈ ls, l.kind.IsRead)
    (hquiet : ∀ l ∈ resolve .postgres looked ls, l.IsQuiet) :
    ∀ l ∈ resolve .postgres looked ls, l.kind.IsRead := by
  induction looked, ls using resolve_induction with
  | nil looked => exact nofun
  | cons looked l ls ih =>
    have htail (looked : Bool) (n : Nat)
        (hquiet : ∀ l ∈ resolve .postgres looked (ls.drop n), l.IsQuiet) :=
      ih looked n (fun l' hl' => hraw l' (List.mem_cons_of_mem l (List.mem_of_mem_drop hl'))) hquiet
    rcases lexeme_cases l with ⟨key, hkey, hahead⟩ | hescaped | ⟨hkey, hescaped⟩
    · rw [resolve_keyword hkey hahead, List.forall_mem_cons] at hquiet ⊢
      exact ⟨isRead_aheadKind _ _, htail true 0 hquiet.2⟩
    · rw [resolve_escaped hescaped, List.forall_mem_cons] at hquiet ⊢
      refine ⟨isRead_decodedKind hescaped fun n hn => ?_, htail _ _ hquiet.2⟩
      exact hquiet.1 n (List.mem_append_right _ hn)
    · rw [resolve_plain hkey hescaped, List.forall_mem_cons] at hquiet ⊢
      exact ⟨hraw l List.mem_cons_self, htail false 0 hquiet.2⟩

/-- **The tokens of a text without errors are as a text can contain them.** -/
theorem isRead_lexemes {source : List Char} (h : ∀ l ∈ lexemes .postgres source, l.IsQuiet) :
    ∀ l ∈ lexemes .postgres source, l.kind.IsRead := by
  have hraw : ∀ l ∈ rawLexemes .postgres source, l.IsQuiet := by
    intro l hl n hn
    have hmem : n ∈ (rawLexemes .postgres source).flatMap Lexeme.notes :=
      List.mem_flatMap.mpr ⟨l, hl, hn⟩
    obtain ⟨l', hl', hn'⟩ :=
      List.mem_flatMap.mp ((notes_sublist_resolve .postgres false _).subset hmem)
    exact h l' hl' n hn'
  have hread : ∀ l ∈ rawLexemes .postgres source, l.IsQuiet → l.kind.IsRead :=
    forall_rawLexemesFrom (P := fun l => l.IsQuiet → l.kind.IsRead)
      (fun _ _ => isRead_firstLexeme) (fun _ _ _ => trivial) _ 0 source
  exact isRead_resolve false _ (fun l hl => hread l hl (hraw l hl)) h

end SqlSyntax
