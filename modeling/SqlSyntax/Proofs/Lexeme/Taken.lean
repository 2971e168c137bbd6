import SqlSyntax.Proofs.Lexeme.Break
import SqlSyntax.Proofs.Lexeme.Choice

/-!
# What a token takes

A token takes at least one character and no more than there are.  Only a literal
without its end gives the end of the text instead, and then there is a note on it.

## Main definitions

* `LexicalProblem.isUnclosed`, `Diagnostic.isUnterminated` — a literal or comment has
  no end.
* `Reading.Fits` — what holds for what the rules read.

## Main results

* `fits_readToken` — it holds for all rules.
-/

namespace SqlSyntax

/-- A literal or comment has no end. -/
def LexicalProblem.isUnclosed : LexicalProblem → Bool
  | unclosedComment | unclosedString | unclosedName | unclosedBinary | unclosedHex
  | unclosedDollar => true
  | _ => false

/-- An error on a literal or comment that is left without its end. -/
def Diagnostic.isUnterminated (g : Diagnostic) : Bool :=
  g.isError && "unterminated ".toList.isPrefixOf g.message.toList

theorem message_of_isUnclosed {p : LexicalProblem} (h : p.isUnclosed = true) :
    p.severity = .error ∧ "unterminated ".toList.isPrefixOf p.message.toList = true := by
  cases p <;> first | exact Bool.noConfusion h | exact ⟨rfl, by decide⟩

theorem isUnterminated_of_isUnclosed {n : Note} (h : n.problem.isUnclosed = true) (ix : LineIndex) :
    (n.diagnostic ix).isUnterminated = true := by
  obtain ⟨hseverity, hmessage⟩ := message_of_isUnclosed h
  simp only [Diagnostic.isUnterminated, Diagnostic.isError, Note.diagnostic, hseverity, hmessage]
  rfl

/-- What is read of a text takes characters of it, and is the end of the text only
with a note on what has no end. -/
structure Reading.Fits (r : Reading) (cs : List Char) : Prop where
  pos : 0 < r.taken
  le : r.taken ≤ cs.length
  unclosed : r.kind = .eof → ∃ n ∈ r.notes, n.problem.isUnclosed = true

variable {start : Nat} {c : Char} {cs : List Char}

/-! ### Rules -/

theorem fits_unfinished {problem : LexicalProblem} (h : problem.isUnclosed = true)
    (notes : List Note) : (unfinished start problem (c :: cs) notes).Fits (c :: cs) where
  pos := Nat.succ_pos _
  le := Nat.le_refl _
  unclosed := fun _ => ⟨⟨problem, start⟩, by simp [unfinished], h⟩

/-- What is no end of the text fits if it takes as many characters as it may. -/
theorem Reading.Fits.of_ne_eof {r : Reading} (h : r.kind ≠ .eof) (hpos : 0 < r.taken)
    (hle : r.taken ≤ cs.length) : r.Fits cs :=
  ⟨hpos, hle, fun heof => absurd heof h⟩

/-- A body in quotes behind `intro` characters. -/
theorem quoted_drop_le {q : Char} {intro n : Nat} {body : List Char}
    (h : quoted q (cs.drop intro) = some (body, n)) : 0 < intro + n ∧ intro + n ≤ cs.length := by
  have hn := quoted_le h
  rw [List.length_drop] at hn
  omega

theorem fits_readWord (d : Dialect) (hc : isNamePart c = true) :
    (readWord d start (c :: cs)).Fits (c :: cs) := by
  have hle : ((c :: cs).takeWhile isNamePart).length ≤ (c :: cs).length :=
    (List.takeWhile_sublist _).length_le
  have hpos : 0 < ((c :: cs).takeWhile isNamePart).length := by
    rw [List.takeWhile_cons, if_pos hc]
    exact Nat.succ_pos _
  unfold readWord
  dsimp only
  split <;> exact Reading.Fits.of_ne_eof (by simp) hpos hle

theorem fits_readQuotedName (d : Dialect) : (readQuotedName d start (c :: cs)).Fits (c :: cs) := by
  unfold readQuotedName
  split
  · exact fits_unfinished rfl _
  · next hq =>
    have hn := quoted_drop_le hq
    exact Reading.Fits.of_ne_eof (by simp) (by dsimp only; omega) (by dsimp only; omega)

theorem fits_readPlainString (intro : Nat) :
    (readPlainString start intro (c :: cs)).Fits (c :: cs) := by
  unfold readPlainString
  split
  · exact fits_unfinished rfl _
  · next hq =>
    have hn := quoted_drop_le hq
    exact Reading.Fits.of_ne_eof (by simp) (by dsimp only; omega) (by dsimp only; omega)

theorem fits_readEscapeString (warn : Bool) {intro : Nat} (hpos : 0 < intro)
    (hle : intro ≤ (c :: cs).length) :
    (readEscapeString warn start intro (c :: cs)).Fits (c :: cs) := by
  have htaken := escapeBody_taken_le 0 ((c :: cs).drop intro)
  rw [List.length_drop] at htaken
  unfold readEscapeString
  dsimp only
  split
  · exact Reading.Fits.of_ne_eof (by simp) (by dsimp only; omega) (by dsimp only; omega)
  · exact fits_unfinished rfl _

theorem fits_readString (d : Dialect) : (readString d start (c :: cs)).Fits (c :: cs) := by
  unfold readString
  split
  · exact fits_readPlainString 1
  · exact fits_readEscapeString _ Nat.one_pos (Nat.succ_pos _)

theorem fits_readBinary : (readBinary start (c :: cs)).Fits (c :: cs) := by
  unfold readBinary
  split
  · exact fits_unfinished rfl _
  · next hq =>
    have hn := quoted_drop_le hq
    exact Reading.Fits.of_ne_eof (by simp) (by dsimp only; omega) (by dsimp only; omega)

theorem fits_readHex : (readHex start (c :: cs)).Fits (c :: cs) := by
  unfold readHex
  split
  · exact fits_unfinished rfl _
  · next hq =>
    have hn := quoted_drop_le hq
    exact Reading.Fits.of_ne_eof (by simp) (by dsimp only; omega) (by dsimp only; omega)

theorem fits_readEscapedName : (readEscapedName start (c :: cs)).Fits (c :: cs) := by
  unfold readEscapedName
  split
  · exact fits_unfinished rfl _
  · next hq =>
    have hn := quoted_drop_le hq
    exact Reading.Fits.of_ne_eof (by simp) (by dsimp only; omega) (by dsimp only; omega)

theorem fits_readEscapedString (d : Dialect) :
    (readEscapedString d start (c :: cs)).Fits (c :: cs) := by
  unfold readEscapedString
  split
  · exact fits_unfinished rfl _
  · next hq =>
    have hn := quoted_drop_le hq
    exact Reading.Fits.of_ne_eof (by simp) (by dsimp only; omega) (by dsimp only; omega)

theorem fits_readParam : (readParam start (c :: cs)).Fits (c :: cs) := by
  have hdigits : (((c :: cs).drop 1).takeWhile Char.isDigit).length ≤ (c :: cs).length - 1 := by
    rw [← List.length_drop]
    exact (List.takeWhile_sublist _).length_le
  have hjunk := (List.takeWhile_sublist (l := (c :: cs).drop
    (1 + (((c :: cs).drop 1).takeWhile Char.isDigit).length)) isNamePart).length_le
  rw [List.length_drop] at hjunk
  have hlen : (c :: cs).length = cs.length + 1 := rfl
  unfold readParam
  dsimp only
  split <;> exact Reading.Fits.of_ne_eof (by simp) (by dsimp only; omega) (by dsimp only; omega)

theorem fits_readDollar : (readDollar start (c :: cs)).Fits (c :: cs) := by
  unfold readDollar
  split
  · exact fits_readParam
  · split
    · exact Reading.Fits.of_ne_eof (by simp) Nat.one_pos (Nat.succ_pos _)
    · next delimiter hd =>
      dsimp only
      split
      · exact fits_unfinished rfl _
      · next n hf =>
        have hle := findText_le hf
        rw [List.length_drop] at hle
        have hpos : 0 < delimiter.length := by
          obtain ⟨tag, rfl, -⟩ := dollarDelimiter_eq hd
          exact Nat.succ_pos _
        exact Reading.Fits.of_ne_eof (by simp) (by dsimp only; omega) (by dsimp only; omega)

theorem digitRun_pos (inside : Bool) (cs : List Char) (hc : c.isDigit = true) :
    0 < digitRun 10 inside (c :: cs) := by
  have hdigit : isDigitOf 10 c = true := by
    rw [Char.isDigit, Bool.and_eq_true, decide_eq_true_eq, decide_eq_true_eq] at hc
    have hrange : '0' ≤ c ∧ c ≤ '9' := hc
    have hval : c.toNat ≤ 57 := hc.2
    rw [isDigitOf, digitValue, digitOf, if_pos hrange, Option.filter_some, if_pos]
    · rfl
    · rw [decide_eq_true_eq]
      show c.toNat - 48 < 10
      omega
  rw [digitRun, if_pos hdigit]
  exact Nat.succ_pos _

theorem numeral_pos (hc : c.isDigit = true ∨ c = '.' ∧ cs.head?.any Char.isDigit = true) :
    0 < (numeral (c :: cs)).length := by
  have hdecimal : 0 < (decimalNumeral (c :: cs)).length := by
    rcases hc with hc | ⟨rfl, hcs⟩
    · have hpos := digitRun_pos false cs hc
      simp only [decimalNumeral]
      omega
    · cases cs with
      | nil => simp at hcs
      | cons e es =>
        have hpos := digitRun_pos false es (by simpa using hcs)
        have hdot : e ≠ '.' := by
          rintro rfl
          simp at hcs
        have hzero : digitRun 10 false ('.' :: e :: es) = 0 := by
          simp [digitRun, show isDigitOf 10 '.' = false from rfl]
        have hfraction : fractionLength ('.' :: e :: es) = digitRun 10 false (e :: es) + 1 := by
          rw [fractionLength, if_neg]
          simpa using hdot
        simp only [decimalNumeral, hzero, List.drop_zero, hfraction]
        omega
  unfold numeral
  cases hmarked : markedLength (c :: cs) with
  | none => exact hdecimal
  | some n => exact (markedLength_bounds hmarked).1

theorem fits_readNumber (hc : c.isDigit = true ∨ c = '.' ∧ cs.head?.any Char.isDigit = true) :
    (readNumber start (c :: cs)).Fits (c :: cs) := by
  have hpos := numeral_pos hc
  have hle := numeral_length_le (c :: cs)
  have hjunk := (List.takeWhile_sublist (l := (c :: cs).drop (numeral (c :: cs)).length)
    isNamePart).length_le
  rw [List.length_drop] at hjunk
  unfold readNumber
  dsimp only
  refine Reading.Fits.of_ne_eof ?_ (by dsimp only; omega) (by dsimp only; omega)
  dsimp only
  split
  · simp
  · split <;> simp

theorem operatorKind_ne_eof (s : String) : operatorKind s ≠ .eof := by
  unfold operatorKind
  split <;> simp

theorem operatorChars_pos (hc : isOperatorChar c = true) (hcs : startsComment (c :: cs) = false) :
    0 < (operatorChars (c :: cs)).length := by
  have hrun : operatorRun (c :: cs) = c :: operatorRun cs := by
    rw [operatorRun, hc, hcs]
    rfl
  have hdrop : 0 < (dropSigns (operatorRun (c :: cs))).length := by
    unfold dropSigns
    dsimp only
    split
    · rw [hrun]
      exact Nat.one_pos
    · next hkept =>
      rw [List.isEmpty_iff] at hkept
      exact List.length_pos_iff.mpr hkept
  unfold operatorChars
  dsimp only
  split
  · rw [hrun]
    exact Nat.succ_pos _
  · exact hdrop

theorem fits_readOperator (hc : isOperatorChar c = true) (hcs : startsComment (c :: cs) = false) :
    (readOperator (c :: cs)).Fits (c :: cs) :=
  Reading.Fits.of_ne_eof (operatorKind_ne_eof _) (operatorChars_pos hc hcs)
    (operatorChars_length_le _)

theorem symbolKind_ne_eof (c : Char) : symbolKind c ≠ .eof := by
  unfold symbolKind
  repeat' split
  all_goals simp

/-- **What the rules read fits**, unless a comment starts where they are used. -/
theorem fits_readToken (d : Dialect) (start : Nat) (hcs : startsComment (c :: cs) = false) :
    (readToken d start c cs).Fits (c :: cs) := by
  have hrule := readBy_readToken d start c cs
  generalize readToken d start c cs = r at hrule ⊢
  cases hrule with
  | string => exact fits_readString d
  | quotedName => exact fits_readQuotedName d
  | dollar => exact fits_readDollar
  | escapeString _ hnext => exact fits_readEscapeString _ Nat.two_pos (two_le_of_head hnext)
  | plainString => exact fits_readPlainString 2
  | binary => exact fits_readBinary
  | hex => exact fits_readHex
  | escapedName => exact fits_readEscapedName
  | escapedString => exact fits_readEscapedString d
  | word hc => exact fits_readWord d (by rw [isNamePart, hc]; rfl)
  | number hc => exact fits_readNumber hc
  | @pair k hk x _ hnext =>
    have hne : k ≠ .eof := by
      rintro rfl
      exact absurd hk (by decide)
    exact .of_ne_eof hne Nat.two_pos (two_le_of_head hnext)
  | operator hc => exact fits_readOperator hc hcs
  | symbol => exact .of_ne_eof (symbolKind_ne_eof c) Nat.one_pos (Nat.succ_pos _)

end SqlSyntax
