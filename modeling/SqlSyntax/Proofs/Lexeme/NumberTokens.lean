import SqlSyntax.Proofs.Lexeme.Choice
import SqlSyntax.Proofs.Lexeme.NameLimit
import SqlSyntax.Proofs.Lexeme.Numerals
import SqlSyntax.Proofs.Rendering.Literals

/-!
# The numbers of a text

A number token takes a numeral of the text, and has its value: either as an integer of 32 bits
or by keeping the text.

## Main definitions

* `Literal.HasValue v q` — a literal is a number with an exact value.
* `Token.IsNumberIn source t` — a token of a text is a number with the value of its text.

## Main results

* `Literal.HasValue.unique` — a literal has one value.
* `isNumberIn_of_mem` — **the number tokens of a text have the values of their texts.**
-/

namespace SqlSyntax

/-! ### The values of literals -/

/-- A literal is a number with this exact value.  The text of a float may have a minus sign. -/
inductive Literal.HasValue : Literal → ℚ → Prop
  | integer (n : Int) : HasValue (.integer n) n
  | unsigned {cs : List Char} {q : ℚ} (h : IsNumeral cs q) : HasValue (.float (String.ofList cs)) q
  | negative {cs : List Char} {q : ℚ} (h : IsNumeral cs q) :
    HasValue (.float (String.ofList ('-' :: cs))) (-q)

variable {d : Dialect} {start : Nat} {c : Char} {cs source : List Char} {q q' : ℚ} {t : Token}

theorem IsNumeral.startsNumeral (h : IsNumeral cs q) : StartsNumeral cs := by
  cases h with
  | whole h =>
    obtain ⟨c, cs', rfl, hc⟩ := head_wholeNumber h
    exact .inl hc
  | decimal h => exact h.startsNumeral

/-- A numeral has no sign. -/
theorem StartsNumeral.ne_sign (h : StartsNumeral (c :: cs)) : c ≠ '-' ∧ c ≠ '+' := by
  rcases h with hc | ⟨hc, -⟩
  · constructor <;> (rintro rfl; cases hc)
  · cases hc
    decide

theorem Literal.HasValue.unique {v : Literal} (h : v.HasValue q) (h' : v.HasValue q') : q = q' := by
  cases h with
  | integer n =>
    cases h'
    rfl
  | @unsigned cs q h =>
    generalize htext : Literal.float (String.ofList cs) = v at h'
    cases h' with
    | integer => cases htext
    | unsigned h' =>
      obtain rfl := String.ofList_injective (Literal.float.inj htext)
      exact h.unique h'
    | negative =>
      obtain rfl := String.ofList_injective (Literal.float.inj htext)
      exact absurd rfl h.startsNumeral.ne_sign.1
  | @negative cs q h =>
    generalize htext : Literal.float (String.ofList ('-' :: cs)) = v at h'
    cases h' with
    | integer => cases htext
    | unsigned h' =>
      obtain rfl := String.ofList_injective (Literal.float.inj htext)
      exact absurd rfl h'.startsNumeral.ne_sign.1
    | negative h' =>
      obtain rfl := (List.cons.inj (String.ofList_injective (Literal.float.inj htext))).2
      rw [h.unique h']

/-! ### What a rule reads -/

/-- The token of a number. -/
def TokenKind.isNumber : TokenKind → Bool
  | .integer _ | .float _ => true
  | _ => false

theorem isNumber_operatorKind (op : String) : (operatorKind op).isNumber = false := by
  unfold operatorKind
  split <;> rfl

theorem isNumber_symbolKind (c : Char) : (symbolKind c).isNumber = false := by
  unfold symbolKind
  repeat' split
  all_goals rfl

/-- Numbers are read where a numeral starts, and nowhere else. -/
theorem startsNumeral_of_readToken (h : (readToken d start c cs).kind.isNumber = true) :
    StartsNumeral (c :: cs) := by
  have hkind := kindBy_readToken d start c cs
  generalize (readToken d start c cs).kind = k at h hkind
  cases hkind with
  | integer _ hc | float _ hc => exact hc.imp id fun hdot => ⟨congrArg some hdot.1, hdot.2⟩
  | text hk => cases k <;> first | cases h; done | cases hk
  | pair hk =>
    have hpairs : ∀ k ∈ [TokenKind.dotDot, .typecast, .colonEquals], k.isNumber = false := by decide
    rw [hpairs k hk] at h
    cases h
  | operator op =>
    rw [isNumber_operatorKind] at h
    cases h
  | symbol =>
    rw [isNumber_symbolKind] at h
    cases h

/-! ### The value of a numeral that is read -/

/-- The text of a float is a numeral. -/
theorem IsFloat.exists_isNumeral (h : IsFloat cs) : ∃ q, IsNumeral cs q := by
  obtain ⟨hstart, hlength, -⟩ := h
  cases hfloat : (numeral cs).isFloat with
  | true =>
    have hnumeral : numeral cs = ⟨cs.length, true⟩ := by rw [← hlength, ← hfloat]
    obtain ⟨q, hq⟩ := numeral_decimal_iff.mp ⟨hstart, hnumeral⟩
    exact ⟨q, .decimal hq⟩
  | false =>
    have hnumeral : numeral cs = ⟨cs.length, false⟩ := by rw [← hlength, ← hfloat]
    have hne : cs ≠ [] := by
      rintro rfl
      rcases hstart with h | ⟨h, -⟩ <;> cases h
    obtain ⟨apart, n, hn⟩ := numeral_whole_iff.mp ⟨hne, hnumeral⟩
    exact ⟨n, .whole hn⟩

/-- The value that an integer token is given is that of its text. -/
theorem isNumeral_of_parse {n : Int} (hne : cs ≠ []) (hnumeral : numeral cs = ⟨cs.length, false⟩)
    (hparse : Int4.parse cs = .ok n) : IsNumeral cs n := by
  obtain ⟨apart, m, hm⟩ := numeral_whole_iff.mp ⟨hne, hnumeral⟩
  have hkind := parse_wholeNumber hm
  rw [hparse, wholeNumberKind] at hkind
  by_cases hfits : m ≤ 2147483647 ∧ apart = false
  · rw [if_pos hfits] at hkind
    obtain rfl := TokenKind.integer.inj hkind
    exact .whole hm
  · rw [if_neg hfits] at hkind
    cases hkind

/-- The literal of a number token can be written, and has the value of the text that was taken. -/
def TokenKind.IsNumberOf (k : TokenKind) (text : List Char) : Prop :=
  ∃ v q, k.constant? = some v ∧ v.IsRead ∧ v.HasValue q ∧ IsNumeral text q

theorem isNumberOf_float (h : IsFloat cs) : (TokenKind.float (String.ofList cs)).IsNumberOf cs := by
  obtain ⟨q, hq⟩ := h.exists_isNumeral
  exact ⟨.float (String.ofList cs), q, rfl, .float h, .unsigned hq, hq⟩

/-- A number without junk behind it has the value of the numeral that was taken. -/
theorem isNumberOf_readNumber (hstart : StartsNumeral (c :: cs))
    (hnotes : (readNumber start (c :: cs)).notes = []) :
    (readNumber start (c :: cs)).kind.IsNumberOf
      ((c :: cs).take (readNumber start (c :: cs)).taken) := by
  have hc : c.isDigit = true ∨ c = '.' ∧ cs.head?.any Char.isDigit = true :=
    hstart.imp id fun hdot => ⟨Option.some.inj hdot.1, hdot.2⟩
  have hread : (readNumber start (c :: cs)).kind.IsRead :=
    isFine_readNumber hc fun n hn => by rw [hnotes] at hn; cases hn
  have hjunk : ((c :: cs).drop (numeral (c :: cs)).length).takeWhile isNamePart = [] := by
    by_contra hjunk
    rw [readNumber] at hnotes
    dsimp only at hnotes
    rw [if_neg (by rwa [List.isEmpty_iff])] at hnotes
    cases hnotes
  obtain ⟨cs', htext, -⟩ := head_numeral hc
  have hagain := numeral_take_length (c :: cs)
  have hlength : ((c :: cs).take (numeral (c :: cs)).length).length = (numeral (c :: cs)).length := by
    rw [List.length_take]
    exact min_eq_left (numeral_length_le _)
  simp only [readNumber, hjunk, List.length_nil, Nat.add_zero] at hread ⊢
  rw [htext] at hagain hlength hread ⊢
  have hfloat (h : (TokenKind.float (String.ofList (c :: cs'))).IsRead) :
      (TokenKind.float (String.ofList (c :: cs'))).IsNumberOf (c :: cs') := by
    refine isNumberOf_float ?_
    rwa [TokenKind.IsRead, String.toList_ofList] at h
  cases hpoint : (numeral (c :: cs)).isFloat with
  | true =>
    rw [hpoint] at hread
    exact hfloat hread
  | false =>
    rw [hpoint] at hread
    cases hparse : Int4.parse (c :: cs') with
    | ok n =>
      rw [hparse] at hread
      have hnumeral : numeral (c :: cs') = ⟨(c :: cs').length, false⟩ := by
        rw [hagain, hlength, ← hpoint]
      exact ⟨.integer n, n, rfl, .integer hread.2, .integer n,
        isNumeral_of_parse (List.cons_ne_nil _ _) hnumeral hparse⟩
    | error p =>
      rw [hparse] at hread
      exact hfloat hread

/-! ### The number tokens of a text -/

/-- A token of a text is a number with the value of its text. -/
def Token.IsNumberIn (source : List Char) (t : Token) : Prop :=
  t.kind.IsNumberOf (t.span.charsIn source)

/-- A number is a numeral of the text, or an error is noted where it starts. -/
theorem isNumberIn_rawLexeme {l : Lexeme} (hl : l ∈ rawLexemes d source)
    (hnumber : l.kind.isNumber = true) : l.token.IsNumberIn source ∨
      ∃ n ∈ l.notes, n.problem.severity = .error ∧ n.offset = l.token.span.start := by
  obtain ⟨hkind, -⟩ | ⟨before, rest, rfl, c, cs, rfl, hcomment, -, rfl⟩ := rawLexeme_cases hl
  · rw [hkind] at hnumber
    cases hnumber
  · rw [Nat.zero_add] at hnumber ⊢
    have hstart := startsNumeral_of_readToken hnumber
    have hread : readToken d (byteLength before) c cs = readNumber (byteLength before) (c :: cs) :=
      readToken_number (hstart.imp id fun hdot => ⟨Option.some.inj hdot.1, hdot.2⟩)
    rw [hread]
    by_cases hnotes : (readNumber (byteLength before) (c :: cs)).notes = []
    · have hnumber := isNumberOf_readNumber hstart hnotes
      have htext := charsIn_between before
        ((c :: cs).take (readNumber (byteLength before) (c :: cs)).taken)
        ((c :: cs).drop (readNumber (byteLength before) (c :: cs)).taken)
      rw [List.take_append_drop] at htext
      refine .inl ?_
      rwa [Token.IsNumberIn, htext]
    · -- the only note that is taken on a number is on the junk behind it
      obtain ⟨n, hn⟩ := List.exists_mem_of_ne_nil _ hnotes
      refine .inr ⟨n, hn, ?_⟩
      revert hn
      unfold readNumber
      dsimp only
      split
      · exact nofun
      · intro hn
        rw [List.mem_singleton.mp hn]
        exact ⟨rfl, rfl⟩

theorem isNumber_aheadKind (k : Keyword) (next : Option Keyword) :
    (aheadKind k next).isNumber = false := by
  unfold aheadKind
  split <;> rfl

/-- Resolving makes no numbers, and leaves those that there are. -/
theorem readAs_number {behind : List Token} (h : (readAs d t behind).kind.isNumber = true) :
    readAs d t behind = t := by
  have hescaped : isEscaped t.kind = false := by
    by_contra hescaped
    rw [readAs_escaped (Bool.not_eq_false _ ▸ hescaped)] at h
    cases hkind : t.kind <;> rw [hkind] at h hescaped <;> first
      | cases h; done
      | exact hescaped rfl
  refine readAs_plain (fun k hk => ?_) hescaped
  rw [readAs_keyword (keyword?_eq_some.mp hk), isNumber_aheadKind] at h
  cases h

/-- **The number tokens of a text have the values of their texts**, if there is no error where
they start. -/
theorem isNumberIn_of_mem (ht : t ∈ (TokenStream.ofText d source).tokenize.1)
    (hnumber : t.kind.isNumber = true)
    (hquiet : ∀ g ∈ (TokenStream.ofText d source).tokenize.2, g.severity = .error →
      g.location ≠ some ((LineIndex.ofText source).locate t.span.start)) :
    t.IsNumberIn source := by
  obtain ⟨before, l, behind, hlexemes, rfl⟩ := exists_rawLexeme ht
  have hsame := readAs_number hnumber
  rw [hsame] at hnumber hquiet ⊢
  have hl : l ∈ rawLexemes d source := hlexemes ▸ List.mem_append_right _ List.mem_cons_self
  refine (isNumberIn_rawLexeme hl hnumber).resolve_right ?_
  rintro ⟨n, hn, hseverity, hoffset⟩
  -- the note gives a diagnostic where the number starts
  have hdiagnostics : (TokenStream.ofText d source).tokenize.2
      = (lexemes d source).flatMap (Lexeme.diagnostics (LineIndex.ofText source)) :=
    congrArg Prod.snd (TokenStream.tokenize_of_endsOnce (endsOnce_lexemes d source))
  obtain ⟨l', hl', hn⟩ := List.mem_flatMap.mp
    ((notes_sublist_resolve d false _).subset (List.mem_flatMap.mpr ⟨l, hl, hn⟩))
  refine hquiet (n.diagnostic (LineIndex.ofText source)) ?_ hseverity ?_
  · rw [hdiagnostics]
    exact List.mem_flatMap.mpr ⟨l', hl', List.mem_map.mpr ⟨n, hn, rfl⟩⟩
  · rw [Note.diagnostic, hoffset]

end SqlSyntax
