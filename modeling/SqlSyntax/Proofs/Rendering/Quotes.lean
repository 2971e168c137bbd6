import SqlSyntax.Proofs.Lexeme.Choice
import SqlSyntax.Proofs.Lexeme.Spells
import SqlSyntax.Proofs.Text.Keywords
import SqlSyntax.Proofs.Text.Utf8
import SqlSyntax.Proofs.Rendering.Kinds

/-!
# Written words, names and strings are read back

A quote that is written twice is read as one, so that what stands between quotes is read
back as it is.  A word is written bare only if it is read back as the same name.

## Main results

* `quoted_double`, `escapeBody_double` — what stands between quotes.
* `isToken_keyword` — keywords.
* `begins_name` — **a name is read back.**
* `isToken_quoteString`, `isToken_binary`, `isToken_hex` — **string constants are read back.**
-/

namespace SqlSyntax

variable {d : Dialect} {cs t : List Char}

/-! ### What stands between quotes -/

namespace Quoted

theorem mem_double {q c : Char} (h : c ∈ double q cs) : c ∈ cs := by
  induction cs with
  | nil => exact h
  | cons e es ih =>
    rw [double_cons] at h
    by_cases he : e = q
    · rw [if_pos he, List.mem_cons, List.mem_cons] at h
      rcases h with h | h | h
      · rw [h, he]
        exact List.mem_cons_self
      · rw [h, he]
        exact List.mem_cons_self
      · exact List.mem_cons_of_mem e (ih h)
    · rw [if_neg he, List.mem_cons] at h
      rcases h with h | h
      · rw [h]
        exact List.mem_cons_self
      · exact List.mem_cons_of_mem e (ih h)

theorem double_eq_self {q : Char} (h : q ∉ cs) : double q cs = cs := by
  induction cs with
  | nil => rfl
  | cons c cs ih =>
    rw [List.mem_cons, not_or] at h
    rw [double_cons, if_neg (Ne.symm h.1), ih h.2]

end Quoted

theorem quoted_cons_of_ne {q c : Char} (hc : c ≠ q) (cs : List Char) :
    quoted q (c :: cs) = (quoted q cs).map fun r => (c :: r.1, r.2 + 1) := by
  rw [quoted.eq_def]
  exact if_neg hc

theorem quoted_cons_cons {q : Char} (cs : List Char) :
    quoted q (q :: q :: cs) = (quoted q cs).map fun r => (q :: r.1, r.2 + 2) := by
  rw [quoted, if_pos rfl, if_pos rfl]

theorem quoted_quote {q : Char} (ht : t.head? ≠ some q) : quoted q (q :: t) = some ([], 1) := by
  cases t with
  | nil => rw [quoted, if_pos rfl]
  | cons c t =>
    rw [quoted, if_pos rfl]
    exact if_neg fun h => ht (congrArg some h)

/-- What is written with every quote twice is read back as it is. -/
theorem quoted_double {q : Char} (ht : t.head? ≠ some q) (cs : List Char) :
    quoted q (Quoted.double q cs ++ q :: t) = some (cs, (Quoted.double q cs).length + 1) := by
  induction cs with
  | nil => exact quoted_quote ht
  | cons c cs ih =>
    rw [Quoted.double_cons]
    by_cases hc : c = q
    · rw [if_pos hc, List.cons_append, List.cons_append, quoted_cons_cons, ih, hc]
      rfl
    · rw [if_neg hc, List.cons_append, quoted_cons_of_ne hc, ih]
      rfl

/-- In an escape string a backslash is written twice too. -/
theorem escapeBody_double (ht : t.head? ≠ some '\'') (cs : List Char) :
    escapeBody 0 (Quoted.double '\\' (Quoted.double '\'' cs) ++ '\'' :: t)
      = ⟨cs.map .char, (Quoted.double '\\' (Quoted.double '\'' cs)).length + 1, true⟩ := by
  have hslash (es : List Char) : backslashItem '\\' es = (.char '\\', 1) := rfl
  induction cs with
  | nil =>
    rw [Quoted.double_nil, Quoted.double_nil, List.nil_append, escapeBody_zero, if_pos rfl,
      if_neg ht]
    rfl
  | cons c cs ih =>
    rw [Quoted.double_cons]
    by_cases hquote : c = '\''
    · -- the second quote is passed over
      subst hquote
      rw [if_pos rfl, Quoted.double_cons, if_neg (by decide), Quoted.double_cons,
        if_neg (by decide), List.cons_append, List.cons_append, escapeBody_zero, if_pos rfl,
        List.head?_cons, if_pos rfl, escapeBody, ih]
      rfl
    · rw [if_neg hquote, Quoted.double_cons]
      by_cases hback : c = '\\'
      · subst hback
        rw [if_pos rfl, List.cons_append, List.cons_append, escapeBody_zero, if_neg (by decide),
          if_pos rfl]
        dsimp only
        rw [hslash, escapeBody, ih]
        rfl
      · rw [if_neg hback, List.cons_append, escapeBody_zero, if_neg hquote, if_neg hback, ih]
        rfl

/-- Characters are assembled to the text that they make. -/
theorem Escape.assemble_chars (cs : List Char) : assemble (cs.map .char) = ⟨cs, []⟩ := by
  have hatoms : atoms none (cs.map .char) = cs.map fun c => .bytes (String.utf8EncodeChar c) := by
    induction cs with
    | nil => rfl
    | cons c cs ih =>
      rw [List.map_cons, atoms, ih]
      rfl
  have hbytes : (atoms none (cs.map .char)).flatMap Atom.toBytes = Utf8.encode cs := by
    rw [hatoms, List.flatMap_map]
    rfl
  have hfaults : (atoms none (cs.map .char)).filterMap Atom.fault? = [] := by
    rw [hatoms, List.filterMap_map]
    exact List.filterMap_eq_nil_iff.mpr fun _ _ => rfl
  unfold assemble
  simp only [hbytes, hfaults, Utf8.decode_encode]

/-! ### Keywords -/

theorem all_takeWhile {p : Char → Bool} (hcs : ∀ c ∈ cs, p c = true)
    (ht : ∀ x ∈ t.head?, p x = false) : (cs ++ t).takeWhile p = cs := by
  rw [List.takeWhile_append_of_pos hcs]
  cases t with
  | nil => exact List.append_nil cs
  | cons x t =>
    rw [List.takeWhile_cons, ht x rfl]
    exact List.append_nil cs

/-- What may follow a word: nothing that belongs to it, and nothing that makes it the mark
of a string constant. -/
def LeavesWord (t : List Char) : Prop :=
  ∀ x ∈ t.head?, isNamePart x = false ∧ x ≠ '\'' ∧ x ≠ '&'

theorem PartsOff.leavesWord (h : PartsOff t) : LeavesWord t := by
  intro x hx
  have hbreak := h x hx
  exact ⟨hbreak.not_namePart, (hbreak.ne (by decide)).symm, (hbreak.ne (by decide)).symm⟩

theorem LeavesWord.ends (h : LeavesWord t) : ∀ x ∈ t.head?, isNamePart x = false :=
  fun x hx => (h x hx).1

theorem LeavesWord.unmarked {c : Char} (h : LeavesWord t) (hcs : ∀ x ∈ cs, isNamePart x = true) :
    Unmarked c (cs ++ t) := by
  have hhead : ∀ x ∈ (cs ++ t).head?, x ≠ '\'' ∧ x ≠ '&' := by
    intro x hx
    cases cs with
    | nil => exact (h x hx).2
    | cons e es =>
      have hpart : isNamePart x = true := by
        cases hx
        exact hcs _ List.mem_cons_self
      constructor <;> rintro rfl <;> cases hpart
  exact ⟨fun _ _ _ hquote => (hhead _ hquote).1 rfl,
    fun _ hampersand => absurd rfl (hhead _ hampersand).2⟩

/-- In front of what leaves it, a word is read as if nothing followed. -/
theorem readToken_word_append {c : Char} (hc : isNameStart c = true)
    (hcs : ∀ x ∈ c :: cs, isNamePart x = true) (hend : ∀ x ∈ t.head?, isNamePart x = false)
    (hmark : Unmarked c (cs ++ t)) (start : Nat) :
    readToken d start c (cs ++ t) = readWord d start (c :: cs) := by
  rw [readToken_word hc hmark, readWord, readWord, ← List.cons_append, all_takeWhile hcs hend,
    List.takeWhile_eq_self_iff.mpr hcs]

/-- A word is read as the rule for words says. -/
theorem begins_word {c : Char} {k : TokenKind} (hc : isNameStart c = true)
    (hcs : ∀ x ∈ cs, isNamePart x = true) (hend : ∀ x ∈ t.head?, isNamePart x = false)
    (hmark : Unmarked c (cs ++ t)) (hk : k.isInner = true)
    (hword : ∀ start, readWord d start (c :: cs) = ⟨k, (c :: cs).length, []⟩) :
    Begins d (c :: cs) t k := by
  have hpart : isNamePart c = true := by
    rw [isNamePart, hc]
    rfl
  have hcomment : startsComment (c :: (cs ++ t)) = false :=
    startsComment_of_ne (ne_of_isNameStart rfl hc) (ne_of_isNameStart rfl hc) _
  refine ⟨hk, c, cs, rfl, isBlank_of_isNameStart hc, hcomment, fun start => ?_⟩
  rw [readToken_word_append hc (List.forall_mem_cons.mpr ⟨hpart, hcs⟩) hend hmark, hword]

theorem readWord_keyword {c : Char} {w : Keyword} (hcs : ∀ x ∈ c :: cs, isNamePart x = true)
    (hlookup : Keyword.lookup (c :: cs) = some w) (start : Nat) :
    readWord d start (c :: cs) = ⟨.keyword w, (c :: cs).length, []⟩ := by
  rw [readWord, List.takeWhile_eq_self_iff.mpr hcs, hlookup]

/-- A keyword is read back in upper case and in lower case. -/
theorem isToken_keyword (w : Keyword) :
    IsToken d w.text.toList (.keyword w) ∧ IsToken d w.spelling.toList (.keyword w) := by
  obtain ⟨hstart, hchars, -⟩ := w.spelling_isWord
  have hlookup := w.lookup_spelling
  have hlookupText := w.lookup_text
  rw [w.toList_text] at hlookupText ⊢
  generalize w.spelling.toList = cs at hstart hchars hlookup hlookupText ⊢
  cases cs with
  | nil => cases hstart
  | cons c cs =>
    have hstart : Quoted.isBareStart c = true := hstart
    rw [List.forall_mem_cons] at hchars
    have hparts : ∀ x ∈ c :: cs, isNamePart x = true := List.forall_mem_cons.mpr
      ⟨isNamePart_of_isBareChar hchars.1, fun x hx => isNamePart_of_isBareChar (hchars.2 x hx)⟩
    have hupper : ∀ x ∈ (c :: cs).map Char.toUpper, isNamePart x = true := by
      rw [List.map_cons, List.forall_mem_cons, List.forall_mem_map]
      exact ⟨isNamePart_toUpper hchars.1, fun x hx => isNamePart_toUpper (hchars.2 x hx)⟩
    constructor
    · have hcs := (List.forall_mem_cons.mp hupper).2
      exact begins_word (isNameStart_toUpper hstart) hcs partsOff_nil.leavesWord.ends
        (partsOff_nil.leavesWord.unmarked hcs) rfl (readWord_keyword hupper hlookupText)
    · have hcs := (List.forall_mem_cons.mp hparts).2
      exact begins_word (isNameStart_of_isBareStart hstart) hcs partsOff_nil.leavesWord.ends
        (partsOff_nil.leavesWord.unmarked hcs) rfl (readWord_keyword hparts hlookup)

/-! ### Names -/

theorem limitName_of_le {start : Nat} (h : byteLength cs ≤ d.maxNameLength) :
    limitName d start cs = (String.ofList cs, []) :=
  if_pos h

/-- What may follow the bare name `cs`: nothing that belongs to it, and no quote that makes a
name of one letter the mark of a constant. -/
structure LeavesName (cs t : List Char) : Prop where
  ends : ∀ x ∈ t.head?, isNamePart x = false
  quote : cs ∈ [['e'], ['n'], ['b'], ['x']] → t.head? ≠ some '\''
  ampersand : cs = ['u'] → t.take 2 ∉ [['&', '"'], ['&', '\'']]

theorem LeavesWord.leavesName (h : LeavesWord t) : LeavesName cs t where
  ends := h.ends
  quote _ hquote := (h '\'' hquote).2.1 rfl
  ampersand _ hmem := by
    cases t with
    | nil => exact absurd hmem (by decide)
    | cons x t =>
      have hx : x ≠ '&' := (h x rfl).2.2
      simp only [List.take_succ_cons, List.mem_cons, List.cons.injEq, hx, false_and,
        List.not_mem_nil, or_self] at hmem

/-- The quote of a mark would have to stand right behind a bare name of one letter. -/
theorem LeavesName.unmarked {c : Char} (h : LeavesName (c :: cs) t)
    (hname : ∀ x ∈ c :: cs, Quoted.isBareChar x = true) : Unmarked c (cs ++ t) := by
  rw [List.forall_mem_cons] at hname
  have hsingle {x : Char} (hx : (cs ++ t).head? = some x) (hbare : Quoted.isBareChar x = false) :
      cs = [] := by
    cases cs with
    | nil => rfl
    | cons e es =>
      cases hx
      rw [hname.2 x List.mem_cons_self] at hbare
      cases hbare
  have hletter {l : Char} (hl : isLetter l c = true) : c = l := by
    rw [isLetter, toLower_of_isBareChar hname.1] at hl
    exact eq_of_beq hl
  refine ⟨fun l hl hc hquote => ?_, fun hc hampersand q hq hafter => ?_⟩
  · obtain rfl := hsingle hquote rfl
    obtain rfl := hletter hc
    refine h.quote ?_ hquote
    revert hl
    simp only [List.mem_cons, List.cons.injEq, and_true, List.not_mem_nil, or_false, imp_self]
  · obtain rfl := hsingle hampersand rfl
    obtain rfl := hletter hc
    refine h.ampersand rfl ?_
    cases t with
    | nil => cases hampersand
    | cons x t =>
    cases hampersand
    cases t with
    | nil => cases hafter
    | cons y t =>
    cases hafter
    revert hq
    simp only [List.mem_cons, List.take_succ_cons, List.take_zero, List.cons.injEq, and_true,
      true_and, List.not_mem_nil, or_false, imp_self]

/-- A bare name is read back as itself or as a keyword that is not reserved. -/
theorem begins_bareName (hname : Quoted.isBareName cs = true) (hlength : byteLength cs ≤ d.maxNameLength)
    (ht : LeavesName cs t) :
    Begins d cs t ((Keyword.lookup cs).elim (.name (String.ofList cs)) .keyword) := by
  have hchars := isBareChar_of_isBareName hname
  have hlower : lowerCase cs = cs := lowerCase_of_isBareChar hchars
  have hparts : ∀ x ∈ cs, isNamePart x = true := fun x hx => isNamePart_of_isBareChar (hchars x hx)
  cases cs with
  | nil => cases hname
  | cons c cs =>
    have hstart : Quoted.isBareStart c = true := by
      simp only [Quoted.isBareName, Bool.and_eq_true] at hname
      exact hname.1.1
    have hcs := (List.forall_mem_cons.mp hparts).2
    have hmark := ht.unmarked hchars
    cases hlookup : Keyword.lookup (c :: cs) with
    | none =>
      refine begins_word (isNameStart_of_isBareStart hstart) hcs ht.ends hmark rfl fun start => ?_
      rw [readWord, List.takeWhile_eq_self_iff.mpr hparts, hlookup, hlower, limitName_of_le hlength]
      rfl
    | some w =>
      exact begins_word (isNameStart_of_isBareStart hstart) hcs ht.ends hmark rfl
        (readWord_keyword hparts hlookup)

/-- A name between quotes is the whole name, or so much of it as there is room for. -/
theorem readToken_quoted (hname : cs ≠ []) (ht : t.head? ≠ some '"') (start : Nat) :
    readToken d start '"' (Quoted.double '"' cs ++ '"' :: t)
      = ⟨.name (limitName d start cs).1, (Quoted.double '"' cs).length + 2,
        (limitName d start cs).2⟩ := by
  rw [readToken_quotedName, readQuotedName, List.drop_succ_cons, List.drop_zero, quoted_double ht]
  dsimp only
  rw [if_neg (by rwa [List.isEmpty_iff]), List.nil_append]

/-- A name between quotes is read back. -/
theorem begins_quotedName (hname : cs ≠ []) (hlength : byteLength cs ≤ d.maxNameLength)
    (ht : t.head? ≠ some '"') :
    Begins d ('"' :: (Quoted.double '"' cs ++ ['"'])) t (.name (String.ofList cs)) := by
  refine ⟨rfl, '"', _, rfl, rfl, startsComment_of_ne (by decide) (by decide) _, fun start => ?_⟩
  rw [List.append_assoc, List.singleton_append, readToken_quoted hname ht, limitName_of_le hlength]
  simp only [List.length_cons, List.length_append, List.length_nil, Nat.zero_add]

/-- **A name is read back**, unless what follows it continues it. -/
theorem begins_name {s : String} (hname : s ≠ "") (hlength : byteLength s.toList ≤ d.maxNameLength)
    (hbare : Quoted.isBareName s.toList = true → LeavesName s.toList t)
    (hquoted : Quoted.isBareName s.toList = false → t.head? ≠ some '"') :
    Begins d (quoteName s).toList t (nameKind s) := by
  rw [quoteName, String.toList_ofList, Quoted.nameChars, nameKind]
  cases hcase : Quoted.isBareName s.toList with
  | true =>
    rw [if_pos rfl, if_pos rfl]
    have hbegins := begins_bareName hcase hlength (hbare hcase)
    rwa [String.ofList_toList] at hbegins
  | false =>
    rw [if_neg Bool.false_ne_true, if_neg Bool.false_ne_true]
    have hne : s.toList ≠ [] := fun hnil => hname (String.toList_eq_nil_iff.mp hnil)
    have hbegins := begins_quotedName hne hlength (hquoted hcase)
    rwa [String.ofList_toList, ← List.cons_append] at hbegins

/-! ### String constants -/

/-- A string constant without backslashes is read back, whether or not they are escapes. -/
theorem isToken_plainString {cs : List Char} (hback : '\\' ∉ cs) :
    IsToken d ('\'' :: (Quoted.double '\'' cs ++ ['\''])) (.string (String.ofList cs)) := by
  have hend : ([] : List Char).head? ≠ some '\'' := nofun
  refine IsToken.of_read rfl rfl rfl fun start => ?_
  rw [readToken_string, readString]
  by_cases hd : d.standardStrings = true
  · rw [if_pos hd, readPlainString, List.drop_succ_cons, List.drop_zero, quoted_double hend]
    simp only [List.length_append, List.length_cons, List.length_nil]
    rw [Nat.add_comm 1]
  · have hdouble : '\\' ∉ Quoted.double '\'' cs := fun hmem => hback (Quoted.mem_double hmem)
    have hbody := escapeBody_double hend cs
    rw [Quoted.double_eq_self hdouble] at hbody
    have hplain : (Quoted.double '\'' cs ++ ['\'']).contains '\\' = false := by
      rw [← Bool.not_eq_true, List.contains_iff_mem, List.mem_append, not_or]
      exact ⟨hdouble, by decide⟩
    have htake : (Quoted.double '\'' cs ++ ['\'']).take ((Quoted.double '\'' cs).length + 1)
        = Quoted.double '\'' cs ++ ['\''] :=
      List.take_of_length_le (by rw [List.length_append]; exact Nat.le_refl _)
    rw [if_neg hd, readEscapeString]
    simp only [List.drop_succ_cons, List.drop_zero, hbody, Nat.add_comm 1, List.take_succ_cons, htake,
      hplain, Bool.and_false, Bool.false_eq_true, if_false, Escape.assemble_chars, faultNotes,
      List.map_nil, List.append_nil, if_true, List.length_append, List.length_cons, List.length_nil,
      Nat.zero_add]

/-- A body whose items make a text without faults is read as that text behind its mark. -/
theorem isToken_escapeBody {c : Char} (hc : c = 'E' ∨ c = 'e') {body : List Char}
    {us : List Escape.Item} (hbody : escapeBody 0 (body ++ ['\'']) = ⟨us, body.length + 1, true⟩)
    (htext : Escape.assemble us = ⟨cs, []⟩) :
    IsToken d (c :: '\'' :: (body ++ ['\''])) (.string (String.ofList cs)) := by
  have hletter : c ≠ '-' ∧ c ≠ '/' ∧ isBlank c = false := by
    rcases hc with rfl | rfl <;> decide
  refine IsToken.of_read rfl hletter.2.2 (startsComment_of_ne hletter.1 hletter.2.1 _) fun start => ?_
  rw [readToken_escapeString hc, readEscapeString]
  simp only [List.drop_succ_cons, List.drop_zero, hbody, Bool.false_and, Bool.false_eq_true,
    if_false, htext, faultNotes, List.map_nil, List.append_nil, if_true, List.length_cons,
    List.length_append, List.length_nil]
  rw [Nat.add_comm 2]

theorem isToken_escapeString (cs : List Char) :
    IsToken d ('E' :: '\'' :: (Quoted.double '\\' (Quoted.double '\'' cs) ++ ['\'']))
      (.string (String.ofList cs)) := by
  have hend : ([] : List Char).head? ≠ some '\'' := nofun
  exact isToken_escapeBody (.inl rfl) (escapeBody_double hend cs) (Escape.assemble_chars cs)

/-- **A string constant is read back.** -/
theorem isToken_quoteString (s : String) : IsToken d (quoteString s).toList (.string s) := by
  rw [quoteString, String.toList_ofList, Quoted.stringChars]
  by_cases hback : s.toList.contains '\\' = true
  · have htoken := isToken_escapeString (d := d) s.toList
    rw [String.ofList_toList] at htoken
    rwa [if_pos hback, List.cons_append, List.cons_append]
  · have hplain : '\\' ∉ s.toList := fun hmem => hback (List.contains_iff_mem.mpr hmem)
    have htoken := isToken_plainString (d := d) hplain
    rw [String.ofList_toList] at htoken
    rwa [if_neg hback, List.cons_append]

/-! ### Bit strings -/

theorem digitNotes_nil {start radix : Nat} {problem : Char → LexicalProblem}
    (h : ∀ c ∈ cs, isDigitOf radix c = true) : digitNotes start radix problem cs = [] := by
  rw [digitNotes, List.find?_eq_none.mpr]
  · rfl
  · intro c hc
    rw [h c hc]
    exact Bool.false_ne_true

theorem quoted_digits {radix : Nat} (h : ∀ c ∈ cs, isDigitOf radix c = true) :
    quoted '\'' (cs ++ ['\'']) = some (cs, cs.length + 1) := by
  have hquote : '\'' ∉ cs := by
    intro hmem
    have hdigit := h _ hmem
    have hnone : digitOf '\'' = none := rfl
    rw [isDigitOf, digitValue, hnone] at hdigit
    cases hdigit
  have hread := quoted_double (q := '\'') (t := []) (by simp) cs
  rwa [Quoted.double_eq_self hquote] at hread

theorem isToken_binary (h : ∀ c ∈ cs, isDigitOf 2 c = true) :
    IsToken d ('B' :: '\'' :: (cs ++ ['\''])) (.binary (String.ofList cs)) := by
  refine IsToken.of_read rfl rfl rfl fun start => ?_
  rw [readToken_binary, readBinary, List.drop_succ_cons, List.drop_succ_cons, List.drop_zero,
    quoted_digits h]
  dsimp only
  rw [digitNotes_nil h, List.length_cons, List.length_append]
  rfl

theorem isToken_hex (h : ∀ c ∈ cs, isDigitOf 16 c = true) :
    IsToken d ('X' :: '\'' :: (cs ++ ['\''])) (.hex (String.ofList cs)) := by
  refine IsToken.of_read rfl rfl rfl fun start => ?_
  rw [readToken_hex, readHex, List.drop_succ_cons, List.drop_succ_cons, List.drop_zero,
    quoted_digits h]
  dsimp only
  rw [digitNotes_nil h, List.length_cons, List.length_append]
  rfl

end SqlSyntax
